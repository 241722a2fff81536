/-!
# Waveforms

The waveform of a voice note is a row of five-bit samples, packed from the lowest bit of the first
octet on.  There are as many samples as fit into the octets.
-/

namespace TypeLang.Content.Waveform

/-- The bits of a sample. -/
def sampleBits : Nat :=
  5

/-- The number of whole samples in `octets` octets. -/
def sampleCount (octets : Nat) : Nat :=
  octets * 8 / sampleBits

/-- The `i`-th sample: it begins at bit `5 * i` and spans at most two octets. -/
def sample (octets : Array UInt8) (i : Nat) : Nat :=
  let start := i * sampleBits
  let low := (octets.getD (start / 8) 0).toNat
  let high := (octets.getD (start / 8 + 1) 0).toNat
  (low + 256 * high) / Nat.pow 2 (start % 8) % Nat.pow 2 sampleBits

/-- The samples that octets hold. -/
def samples (octets : List UInt8) : List Nat :=
  (List.range (sampleCount octets.length)).map (sample octets.toArray)

end TypeLang.Content.Waveform
