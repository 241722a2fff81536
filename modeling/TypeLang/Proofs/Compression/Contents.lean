import Mathlib.Tactic
import TypeLang.Proofs.Compression.Bounds
import TypeLang.Proofs.Results
import TypeLang.Proofs.Wire.Written

/-!
# Complete contents

A limit chooses among contents by their size and does nothing else.  The tokens of a stream are
carried out here without any bound, and `GzipContent` and `ZlibContent` say what the content of a
gzip member and of a zlib stream is, with the checksums that go with it and without the limit or the
way the octets are read.

Three facts connect them with `inflate`.  A reader gives out one sequence of octets for given packed
ones, and a bound only says how far it is followed (`inflate_eq_upTo`).  What comes out below the
bound is the complete content (`gunzip?_eq_some_iff`, `unzlib_eq_ok_iff`).  Octets with the header
of a zlib stream are no gzip member under any bound (`gunzip?_eq_none_of_isZlibHeader`), so that
the fallback is the same under all of them.
-/

namespace TypeLang.Compression

namespace Deflate

/-! ## Tokens without a bound -/

/-- Carries out one token. -/
def carryOut (out : Array UInt8) : Token → Array UInt8
  | .literal octet => out.push octet
  | .copy length distance => copyBack distance length out

/-- All octets that tokens stand for. -/
def expandAll (tokens : List Token) : List UInt8 :=
  (tokens.foldl carryOut #[]).toList

lemma copyBack_add (distance m n : ℕ) (out : Array UInt8) :
    copyBack distance (m + n) out = copyBack distance n (copyBack distance m out) := by
  induction m generalizing out with
  | zero => rw [Nat.zero_add, copyBack]
  | succ m ih => rw [Nat.succ_add, copyBack, copyBack, ih]

lemma prefix_copyBack (distance count : ℕ) (out : Array UInt8) :
    out.toList <+: (copyBack distance count out).toList := by
  induction count generalizing out with
  | zero => exact List.prefix_rfl
  | succ count ih =>
      have hpush : out.toList <+: (out.push (lookBack distance out)).toList := by
        rw [Array.toList_push]
        exact List.prefix_append _ _
      exact hpush.trans (ih _)

@[simp] lemma size_carryOut (out : Array UInt8) (t : Token) :
    (carryOut out t).size = out.size + t.size := by
  cases t with
  | literal octet => exact Array.size_push octet
  | copy length distance => exact size_copyBack distance length out

lemma prefix_carryOut (out : Array UInt8) (t : Token) :
    out.toList <+: (carryOut out t).toList := by
  cases t with
  | literal octet =>
      rw [carryOut, Array.toList_push]
      exact List.prefix_append _ _
  | copy length distance => exact prefix_copyBack distance length out

lemma prefix_foldl_carryOut (out : Array UInt8) (tokens : List Token) :
    out.toList <+: (tokens.foldl carryOut out).toList := by
  induction tokens generalizing out with
  | nil => exact List.prefix_rfl
  | cons t rest ih => exact (prefix_carryOut out t).trans (ih _)

lemma size_foldl_carryOut (out : Array UInt8) (tokens : List Token) :
    (tokens.foldl carryOut out).size = out.size + expandedSize tokens := by
  induction tokens generalizing out with
  | nil => rfl
  | cons t rest ih =>
      rw [List.foldl_cons, ih, size_carryOut, expandedSize_cons, Nat.add_assoc]

lemma length_expandAll (tokens : List Token) :
    (expandAll tokens).length = expandedSize tokens := by
  unfold expandAll
  rw [Array.length_toList, size_foldl_carryOut]
  simp

lemma expandOnto_of_full {bound : ℕ} {out : Array UInt8} (h : bound ≤ out.size)
    (tokens : List Token) : expandOnto bound out tokens = out := by
  cases tokens with
  | nil => rfl
  | cons t rest =>
      unfold expandOnto
      exact if_pos h

lemma eq_take_of_full {bound : ℕ} {out : Array UInt8} {all : List UInt8} (h : out.size = bound)
    (hbegins : out.toList <+: all) : out.toList = all.take bound := by
  rw [← h, ← Array.length_toList]
  exact List.prefix_iff_eq_take.1 hbegins

/-- Under a bound the tokens are carried out as without it, as far as the bound goes. -/
lemma expandOnto_eq_take {bound : ℕ} {out : Array UInt8} (h : out.size ≤ bound)
    (tokens : List Token) :
    (expandOnto bound out tokens).toList = (tokens.foldl carryOut out).toList.take bound := by
  induction tokens generalizing out with
  | nil =>
      have hall : out.toList.length ≤ bound := by rwa [Array.length_toList]
      exact (List.take_of_length_le hall).symm
  | cons t rest ih =>
      unfold expandOnto
      by_cases hfull : bound ≤ out.size
      · rw [if_pos hfull]
        exact eq_take_of_full (le_antisymm h hfull) (prefix_foldl_carryOut out (t :: rest))
      · rw [if_neg hfull]
        cases t with
        | literal octet =>
            apply ih
            rw [Array.size_push]
            omega
        | copy length distance =>
            rcases le_or_gt length (bound - out.size) with hfits | hcut
            · simp only [min_eq_left hfits]
              apply ih
              rw [size_copyBack]
              omega
            · -- the copy is cut at the bound, and nothing is carried out after it
              simp only [min_eq_right hcut.le]
              have hsize : (copyBack distance (bound - out.size) out).size = bound := by
                rw [size_copyBack]
                omega
              rw [expandOnto_of_full hsize.ge]
              apply eq_take_of_full hsize
              have hcopy : copyBack distance length out =
                  copyBack distance (length - (bound - out.size))
                    (copyBack distance (bound - out.size) out) := by
                rw [← copyBack_add]
                congr 1
                omega
              rw [List.foldl_cons, carryOut, hcopy]
              exact (prefix_copyBack distance _ _).trans (prefix_foldl_carryOut _ rest)

lemma expand_eq_take (bound : ℕ) (tokens : List Token) :
    expand bound tokens = (expandAll tokens).take bound :=
  expandOnto_eq_take (Nat.zero_le _) tokens

/-- The content that is closed at the end of a stream is all that its tokens stand for. -/
lemma contentOf_eq (data : List UInt8) : contentOf data = expandAll (tokens data).1 := by
  unfold contentOf
  rw [expand_eq_take, ← length_expandAll, List.take_length]

/-! ## What a reader gives out -/

/-- What is given out of packed octets, one octet after the other, and how it ends. -/
structure Output where
  octets : List UInt8
  /-- The octets after the stream, or the fault that shows when the octets are used up. -/
  ending : Except StreamFault (List UInt8)

/-- An output followed up to a bound. -/
def Output.upTo (bound : ℕ) (o : Output) : Except StreamFault Expansion :=
  if o.octets.length < bound then o.ending.map (.whole o.octets)
  else .ok (.full (o.octets.take bound))

/-- How many octets are given out of a corrupt stream at most: those before the step in which the
corruption lies. -/
def soundSize (closing : Closing) (before : ℕ) (data : List UInt8) : ℕ :=
  max (windowStart (expandedSize (tokens data).1)) (portionStart closing before data)

/-- What is given out of a stream. -/
def outputOf (closing : Closing) (before : ℕ) (data : List UInt8) : Output where
  octets :=
    if endingOf closing data = .error .corrupt then
      (expandAll (tokens data).1).take (soundSize closing before data)
    else expandAll (tokens data).1
  ending := endingOf closing data

section

variable {closing : Closing} {before bound : ℕ} {data content after : List UInt8}

/-- A corrupt stream shows that it is corrupt when its sound octets are used up. -/
lemma shows_iff : Shows closing before bound data ↔
    endingOf closing data = .error .corrupt ∧ soundSize closing before data < bound := by
  unfold soundSize
  rw [max_lt_iff]
  exact ⟨fun h => ⟨h.corrupt, h.window, h.portion⟩, fun h => ⟨h.1, h.2.1, h.2.2⟩⟩

lemma upTo_of_lt {o : Output} (h : o.octets.length < bound) :
    o.upTo bound = o.ending.map (.whole o.octets) :=
  if_pos h

lemma upTo_of_le {o : Output} (h : bound ≤ o.octets.length) :
    o.upTo bound = .ok (.full (o.octets.take bound)) :=
  if_neg (not_lt.2 h)

/-- **A reader gives out one sequence of octets**, and a bound is only where it is left. -/
theorem inflate_eq_upTo (closing : Closing) (before bound : ℕ) (data : List UInt8) :
    inflate closing before bound data = (outputOf closing before data).upTo bound := by
  have hlength := length_expandAll (tokens data).1
  by_cases hcorrupt : endingOf closing data = .error .corrupt
  · have hoctets : (outputOf closing before data).octets =
        (expandAll (tokens data).1).take (soundSize closing before data) := if_pos hcorrupt
    rcases inflate_cases closing before bound data with ⟨hsize, hends⟩ | hshows | ⟨hsize, hfull⟩
    · rw [upTo_of_lt (by rw [hoctets, List.length_take]; omega), hends, outputOf, hcorrupt]
      rfl
    · have hbound := (shows_iff.1 hshows).2
      rw [upTo_of_lt (by rw [hoctets, List.length_take]; omega), inflate_of_shows hshows, outputOf,
        hcorrupt]
      rfl
    · have hsound : bound ≤ soundSize closing before data := by
        by_contra hbound
        cases hfull.symm.trans (inflate_of_shows (shows_iff.2 ⟨hcorrupt, not_le.1 hbound⟩))
      rw [upTo_of_le (by rw [hoctets, List.length_take]; omega), hfull, hoctets, List.take_take,
        min_eq_left hsound, expand_eq_take]
  · have hoctets : (outputOf closing before data).octets = expandAll (tokens data).1 :=
      if_neg hcorrupt
    rcases inflate_cases closing before bound data with ⟨hsize, hends⟩ | hshows | ⟨hsize, hfull⟩
    · rw [upTo_of_lt (by rw [hoctets, hlength]; exact hsize), hends, hoctets, contentOf_eq]
      rfl
    · exact absurd hshows.corrupt hcorrupt
    · rw [upTo_of_le (by rw [hoctets, hlength]; exact hsize), hfull, hoctets, expand_eq_take]

lemma close_eq_ok {ending : Except StreamFault (List UInt8)} {after : List UInt8} :
    close closing content ending = .ok after ↔
      ∃ rest, ending = .ok rest ∧ closing content rest = .ok after := by
  cases ending <;> simp [close]

/-- What is whole below a bound is all that the tokens of the stream stand for. -/
lemma inflate_eq_whole_iff (hbelow : content.length < bound) :
    inflate closing before bound data = .ok (.whole content after) ↔
      content = expandAll (tokens data).1 ∧
        ∃ rest, (tokens data).2 = .ok rest ∧ closing content rest = .ok after := by
  rw [inflate_eq_upTo, ← close_eq_ok]
  have hsound : ∀ {after}, endingOf closing data = .ok after →
      (outputOf closing before data).octets = expandAll (tokens data).1 := fun hending =>
    if_neg (by rw [hending]; exact nofun)
  constructor
  · intro h
    have hlt : (outputOf closing before data).octets.length < bound := by
      by_contra hle
      cases (upTo_of_le (not_lt.1 hle)).symm.trans h
    rw [upTo_of_lt hlt] at h
    obtain ⟨after, hending, hwhole⟩ := map_eq_ok.1 h
    rw [hsound hending] at hwhole
    cases hwhole
    rw [← contentOf_eq]
    exact ⟨rfl, hending⟩
  · rintro ⟨rfl, hclose⟩
    rw [← contentOf_eq] at hclose
    have hending : (outputOf closing before data).ending = .ok after := hclose
    rw [upTo_of_lt (by rwa [hsound hclose]), hsound hclose, hending]
    rfl

end

end Deflate

/-! ## Contents -/

/-- Octets begin with a gzip member that has this content, and its trailer confirms it. -/
def GzipContent (data content : List UInt8) : Prop :=
  ∃ body rest, skipGzipHeader? data = some body ∧ (Deflate.tokens body).2 = .ok rest ∧
    content = Deflate.expandAll (Deflate.tokens body).1 ∧ rest.take 8 = gzipTrailer content

/-- The Adler-32 of a content, its highest octet first. -/
def zlibTrailer (content : List UInt8) : List UInt8 :=
  (Wire.littleEndian 4 (Checksum.adler32 content).toNat).reverse

/-- Octets begin with a zlib stream that has this content, and its trailer confirms it. -/
def ZlibContent (data content : List UInt8) : Prop :=
  ∃ method flags body rest, data = method :: flags :: body ∧ isZlibHeader method flags ∧
    (Deflate.tokens body).2 = .ok rest ∧ content = Deflate.expandAll (Deflate.tokens body).1 ∧
    rest.take 4 = zlibTrailer content

lemma four_octets_eq_zlibTrailer_iff {a b c d : UInt8} {content : List UInt8} :
    [a, b, c, d] = zlibTrailer content ↔ (Checksum.adler32 content).toNat =
      ((a.toNat * 256 + b.toNat) * 256 + c.toNat) * 256 + d.toNat := by
  have hlt : (Checksum.adler32 content).toNat < 256 ^ [d, c, b, a].length := by
    simpa using (Checksum.adler32 content).toNat_lt
  have hvalue : Wire.ofLittleEndian [d, c, b, a] =
      ((a.toNat * 256 + b.toNat) * 256 + c.toNat) * 256 + d.toNat := by
    simp only [Wire.ofLittleEndian]
    omega
  unfold zlibTrailer
  rw [← List.reverse_eq_iff, ← hvalue]
  exact (Wire.eq_littleEndian_iff hlt).trans eq_comm

/-- A stream is closed by the checksum of its content and by nothing else. -/
lemma exists_adlerClosing_iff {content rest : List UInt8} :
    (∃ after, adlerClosing content rest = .ok after) ↔ rest.take 4 = zlibTrailer content := by
  unfold adlerClosing
  split
  case h_1 a b c d rest =>
    rw [List.take_succ_cons, List.take_succ_cons, List.take_succ_cons, List.take_succ_cons,
      List.take_zero, four_octets_eq_zlibTrailer_iff]
    dsimp only
    split_ifs with hsum <;> simp [hsum]
  case h_2 hshort =>
    have hlength : (zlibTrailer content).length = 4 := by
      rw [zlibTrailer, List.length_reverse, Wire.length_littleEndian]
    constructor
    · rintro ⟨after, h⟩
      cases h
    · intro htake
      rw [← htake, List.length_take] at hlength
      match rest, hlength with
      | a :: b :: c :: d :: rest, _ => exact absurd rfl (hshort a b c d rest)

section

variable {bound limit : ℕ} {data content : List UInt8}

lemma gunzip?_eq_some_iff (hbelow : content.length < bound) :
    gunzip? bound data = some content ↔ GzipContent data content := by
  unfold gunzip? GzipContent
  cases hheader : skipGzipHeader? data with
  | none => simp
  | some body =>
      simp only [Option.bind_eq_bind, Option.bind_some, Option.some.injEq]
      constructor
      · intro h
        cases hbody : Deflate.inflate Deflate.noClosing (data.length - body.length) bound body with
        | error fault => simp [hbody] at h
        | ok expansion =>
            rw [hbody] at h
            cases expansion with
            | full octets =>
                cases h
                exact absurd (Deflate.length_of_full hbody) hbelow.ne
            | whole octets rest =>
                simp only [Option.ite_none_right_eq_some, Option.some.injEq] at h
                obtain ⟨htrailer, rfl⟩ := h
                obtain ⟨hcontent, rest, hending, hclose⟩ :=
                  (Deflate.inflate_eq_whole_iff hbelow).1 hbody
                cases hclose
                exact ⟨body, rest, rfl, hending, hcontent, htrailer⟩
      · rintro ⟨_, rest, rfl, hending, hcontent, htrailer⟩
        rw [(Deflate.inflate_eq_whole_iff hbelow).2 ⟨hcontent, rest, hending, rfl⟩]
        exact if_pos htrailer

lemma unzlib_eq_ok_iff (hbelow : content.length < bound) :
    unzlib bound data = .ok content ↔ ZlibContent data content := by
  constructor
  · intro h
    unfold unzlib at h
    split at h
    case h_2 => cases h
    case h_1 method flags body =>
      split_ifs at h with hheader
      cases hbody : Deflate.inflate adlerClosing 2 bound body with
      | error fault => simp [hbody] at h
      | ok expansion =>
          rw [hbody] at h
          cases expansion with
          | full octets =>
              cases h
              exact absurd (Deflate.length_of_full hbody) hbelow.ne
          | whole octets after =>
              cases h
              obtain ⟨hcontent, rest, hending, hadler⟩ :=
                (Deflate.inflate_eq_whole_iff hbelow).1 hbody
              exact ⟨method, flags, body, rest, rfl, hheader, hending, hcontent,
                exists_adlerClosing_iff.1 ⟨after, hadler⟩⟩
  · rintro ⟨method, flags, body, rest, rfl, hheader, hending, hcontent, htrailer⟩
    obtain ⟨after, hadler⟩ := exists_adlerClosing_iff.2 htrailer
    unfold unzlib
    simp only [hheader, if_true,
      (Deflate.inflate_eq_whole_iff hbelow).2 ⟨hcontent, rest, hending, hadler⟩]

/-- The header of a zlib stream is no header of a gzip member. -/
lemma gunzip?_eq_none_of_isZlibHeader {method flags : UInt8} {body : List UInt8}
    (h : isZlibHeader method flags) (bound : ℕ) :
    gunzip? bound (method :: flags :: body) = none := by
  have hheader : skipGzipHeader? (method :: flags :: body) = none := by
    unfold skipGzipHeader?
    split
    case h_2 => rfl
    case h_1 heq =>
      -- the first octet of a gzip member names no method of zlib
      simp only [List.cons.injEq] at heq
      obtain ⟨rfl, rfl, -⟩ := heq
      cases h
  simp [gunzip?, hheader]

/-- What comes out below a bound is the content of the gzip member, or else of the zlib stream. -/
lemma unpackUpTo_eq_ok_iff (hbelow : content.length < bound) :
    unpackUpTo bound data = .ok content ↔
      GzipContent data content ∨ (∀ bound', gunzip? bound' data = none) ∧
        ZlibContent data content := by
  unfold unpackUpTo
  cases hgzip : gunzip? bound data with
  | some octets =>
      constructor
      · intro h
        cases h
        exact .inl ((gunzip?_eq_some_iff hbelow).1 hgzip)
      · rintro (hcontent | ⟨hnone, -⟩)
        · rw [(gunzip?_eq_some_iff hbelow).2 hcontent] at hgzip
          cases hgzip
          rfl
        · cases hgzip.symm.trans (hnone bound)
  | none =>
      constructor
      · intro h
        have hcontent := (unzlib_eq_ok_iff hbelow).1 h
        refine .inr ⟨fun bound' => ?_, hcontent⟩
        obtain ⟨method, flags, body, rest, rfl, hheader, -⟩ := hcontent
        exact gunzip?_eq_none_of_isZlibHeader hheader bound'
      · rintro (hcontent | ⟨-, hcontent⟩)
        · cases hgzip.symm.trans ((gunzip?_eq_some_iff hbelow).2 hcontent)
        · exact (unzlib_eq_ok_iff hbelow).2 hcontent

lemma inflate_eq_ok_iff : inflate limit data = .ok content ↔
    content.length ≤ limit ∧ unpackUpTo (limit + 1) data = .ok content := by
  unfold inflate
  cases unpackUpTo (limit + 1) data with
  | error cause => simp
  | ok octets =>
      simp only [Except.ok.injEq]
      split_ifs with hlarge
      · constructor
        · intro h
          cases h
        · rintro ⟨hsize, rfl⟩
          omega
      · constructor
        · intro h
          cases h
          exact ⟨not_lt.1 hlarge, rfl⟩
        · rintro ⟨-, rfl⟩
          rfl

/-- What is inflated within a limit, in terms of contents. -/
lemma inflate_eq_ok_iff_content : inflate limit data = .ok content ↔ content.length ≤ limit ∧
    (GzipContent data content ∨
      (∀ bound, gunzip? bound data = none) ∧ ZlibContent data content) := by
  rw [inflate_eq_ok_iff]
  exact and_congr_right fun hsize => unpackUpTo_eq_ok_iff (Nat.lt_succ_of_le hsize)

end

/-- **A limit is a filter by size and nothing else.**  What is inflated within a limit is what is
inflated within a higher one and is no longer than the limit; it is all of the content of the gzip
member that the octets begin with, or, if they begin with none, of the zlib stream, and the checksum
is that of the content.  A limit here is any number, so that one octet more than it always exists;
where numbers end, the same holds of every content shorter than the largest one. -/
theorem inflate_filters_by_size {limit limit' : ℕ} (hle : limit ≤ limit')
    (data content : List UInt8) :
    (inflate limit data = .ok content ↔
      inflate limit' data = .ok content ∧ content.length ≤ limit) ∧
    (inflate limit data = .ok content ↔ content.length ≤ limit ∧
      (GzipContent data content ∨
        (∀ bound, gunzip? bound data = none) ∧ ZlibContent data content)) := by
  refine ⟨?_, inflate_eq_ok_iff_content⟩
  rw [inflate_eq_ok_iff_content, inflate_eq_ok_iff_content]
  constructor
  · rintro ⟨hsize, hcontent⟩
    exact ⟨⟨hsize.trans hle, hcontent⟩, hsize⟩
  · rintro ⟨⟨-, hcontent⟩, hsize⟩
    exact ⟨hsize, hcontent⟩

/-- A gzip member with two octets in a stored block. -/
def memberOfTwo : List UInt8 :=
  [31, 139, 8, 0, 0, 0, 0, 0, 0, 255, 1, 2, 0, 253, 255, 7, 9, 156, 60, 68, 119, 2, 0, 0, 0]

/-- The member is inflated within two octets but not within one. -/
theorem inflate_filters_memberOfTwo :
    1 ≤ 2 ∧ inflate 2 memberOfTwo = .ok [7, 9] ∧ inflate 1 memberOfTwo ≠ .ok [7, 9] :=
  ⟨by decide, by decide +kernel, fun h =>
    absurd ((inflate_filters_by_size (by decide : 1 ≤ 2) memberOfTwo [7, 9]).1.1 h).2 (by decide)⟩

end TypeLang.Compression
