import TypeLang.Proofs.Wire.Reader
import TypeLang.Wire.Primitive

/-!
# Reading that stops because values lie too deep

Only the readers of a decoder run out of levels.  No primitive form does, so whoever puts forms and
readers together stops for that reason exactly where one of the readers does, after everything
before it has been read.  `Deep` says that reading stops so, and the lemmas say where: in one of
the two parts of a sequence, in octets of their own, at one element of a row or of a vector.
-/

namespace TypeLang.Wire

variable {α β : Type}

/-- Reading from a cursor stops because what begins at `offset` lies deeper than `limit` levels. -/
def Deep (limit : ℕ) (r : Reader α) (c : Cursor) (offset : ℕ) : Prop :=
  ∃ stop, r c = .failed (.tooDeep offset limit) stop

/-- Reading never stops because a value lies too deep. -/
def Shallow (r : Reader α) : Prop :=
  ∀ limit c offset, ¬Deep limit r c offset

variable {limit offset : ℕ} {r : Reader α} {f : α → Reader β} {c : Cursor}

/-! ## Sequences and choices -/

lemma deep_bind : Deep limit (r >>= f) c offset ↔
    Deep limit r c offset ∨ ∃ a after, r c = .done a after ∧ Deep limit (f a) after offset := by
  unfold Deep
  rw [Reader.bind_apply]
  cases r c <;> simp

lemma deep_bind_of_shallow (hr : Shallow r) : Deep limit (r >>= f) c offset ↔
    ∃ a after, r c = .done a after ∧ Deep limit (f a) after offset :=
  deep_bind.trans (or_iff_right (hr limit c offset))

lemma deep_bind_shallow (hf : ∀ a, Shallow (f a)) :
    Deep limit (r >>= f) c offset ↔ Deep limit r c offset := by
  rw [deep_bind, or_iff_left]
  rintro ⟨a, after, -, hdeep⟩
  exact hf a limit after offset hdeep

/-- A fault in octets of their own is a fault of the wire. -/
lemma deep_within (octets : List UInt8) : Deep limit (Reader.within octets r) c offset ↔
    Deep limit r (Cursor.start octets) offset := by
  unfold Deep Reader.within
  cases r (Cursor.start octets) <;> simp

lemma shallow_pure (a : α) : Shallow (pure a : Reader α) := by
  rintro limit c offset ⟨stop, h⟩
  cases h

lemma shallow_fail {fault : Fault} (h : ∀ offset limit, fault ≠ .tooDeep offset limit) :
    Shallow (Reader.fail fault : Reader α) := by
  rintro limit c offset ⟨stop, hfailed⟩
  cases hfailed
  exact h offset limit rfl

lemma shallow_bind (hr : Shallow r) (hf : ∀ a, Shallow (f a)) : Shallow (r >>= f) :=
  fun limit c offset hdeep => hr limit c offset ((deep_bind_shallow hf).1 hdeep)

lemma shallow_bind_pure (hr : Shallow r) (g : α → β) : Shallow (r >>= fun a => pure (g a)) :=
  shallow_bind hr fun _ => shallow_pure _

lemma shallow_ite {p : Prop} [Decidable p] {t : Reader α} (hr : Shallow r) (ht : Shallow t) :
    Shallow (if p then r else t) := by
  by_cases h : p
  · rwa [if_pos h]
  · rwa [if_neg h]

lemma shallow_ofExcept {x : Except Fault α}
    (h : ∀ offset limit, x ≠ .error (.tooDeep offset limit)) : Shallow (Reader.ofExcept x) := by
  cases x with
  | error fault => exact shallow_fail fun offset limit heq => h offset limit (by rw [heq])
  | ok a => exact shallow_pure a

/-! ## Primitive forms -/

lemma shallow_position : Shallow Reader.position := by
  rintro limit c offset ⟨stop, h⟩
  cases h

lemma shallow_take (n : ℕ) : Shallow (Reader.take n) := by
  rintro limit c offset ⟨stop, h⟩
  unfold Reader.take at h
  split_ifs at h
  cases h

lemma shallow_number (width : ℕ) : Shallow (Reader.number width) :=
  shallow_bind_pure (shallow_take width) _

lemma shallow_uint32 : Shallow Reader.uint32 :=
  shallow_bind_pure (shallow_number 4) _

lemma shallow_int32 : Shallow Reader.int32 :=
  shallow_bind_pure (shallow_number 4) _

lemma shallow_int64 : Shallow Reader.int64 :=
  shallow_bind_pure (shallow_number 8) _

lemma shallow_double : Shallow Reader.double :=
  shallow_bind_pure (shallow_number 8) _

lemma shallow_unknownTag (expected : String) : Shallow (Reader.unknownTag expected : Reader α) := by
  have hrewind : Shallow (Reader.rewind 4) := by
    rintro limit c offset ⟨stop, h⟩
    cases h
  refine shallow_bind hrewind fun _ => shallow_bind shallow_position fun start => ?_
  exact shallow_bind shallow_uint32 fun tag => shallow_fail fun _ _ h => nomatch h

lemma shallow_bool : Shallow Reader.bool := by
  refine shallow_bind shallow_uint32 fun tag => ?_
  exact shallow_ite (shallow_pure _) (shallow_ite (shallow_pure _) (shallow_unknownTag _))

lemma shallow_lengthMark : Shallow Reader.lengthMark := by
  refine shallow_bind shallow_position fun start => shallow_bind (shallow_number 1) fun first => ?_
  refine shallow_ite (shallow_fail fun _ _ h => nomatch h) (shallow_ite ?_ (shallow_pure _))
  exact shallow_bind_pure (shallow_number 3) _

lemma shallow_skip (n : ℕ) : Shallow (Reader.skip n) :=
  shallow_bind_pure (shallow_take n) _

lemma shallow_bytes : Shallow Reader.bytes := by
  refine shallow_bind shallow_lengthMark fun mark => shallow_bind (shallow_take _) fun content => ?_
  exact shallow_bind_pure (shallow_skip _) _

lemma shallow_randomBytes (least : ℕ) : Shallow (Reader.randomBytes least) := by
  refine shallow_bind shallow_position fun start => shallow_bind shallow_lengthMark fun mark => ?_
  exact shallow_ite (shallow_fail fun _ _ h => nomatch h) (shallow_skip _)

lemma shallow_string : Shallow Reader.string := by
  refine shallow_bind shallow_bytes fun octets => ?_
  cases Text.unutf8 octets with
  | ok chars => exact shallow_pure _
  | error fault => exact shallow_fail fun _ _ h => nomatch h

lemma shallow_opened (maxInflated : ℕ) : Shallow (Reader.opened maxInflated) := by
  refine shallow_bind shallow_position fun start => shallow_bind shallow_bytes fun packed => ?_
  refine shallow_ofExcept fun _ _ h => ?_
  cases hcontent : Compression.inflate maxInflated packed <;>
    simp [hcontent, Except.mapError] at h

lemma shallow_count : Shallow Reader.count := by
  refine shallow_bind shallow_position fun start => shallow_bind shallow_int32 fun n => ?_
  exact shallow_ite (shallow_fail fun _ _ h => nomatch h) (shallow_pure _)

/-! ## Rows and vectors -/

/-- An item of a row lies too deep, behind others that have been read. -/
lemma deep_items (n : ℕ) : Deep limit (Reader.items r n) c offset ↔
    ∃ i < n, ∃ as after, Reader.items r i c = .done as after ∧ Deep limit r after offset := by
  induction n generalizing c with
  | zero =>
      refine iff_of_false (shallow_pure _ limit c offset) ?_
      rintro ⟨i, hi, -⟩
      exact absurd hi (Nat.not_lt_zero i)
  | succ n ih =>
      rw [Reader.items_succ, deep_bind]
      constructor
      · rintro (hfirst | ⟨a, after, hfirst, hrest⟩)
        · exact ⟨0, Nat.succ_pos n, [], c, rfl, hfirst⟩
        · rw [deep_bind_shallow fun _ => shallow_pure _, ih] at hrest
          obtain ⟨i, hi, as, last, has, hdeep⟩ := hrest
          refine ⟨i + 1, Nat.succ_lt_succ hi, a :: as, last, ?_, hdeep⟩
          rw [Reader.items_succ, Reader.bind_of_done hfirst, Reader.bind_of_done has]
          rfl
      · rintro ⟨i, hi, as, last, has, hdeep⟩
        cases i with
        | zero =>
            cases has
            exact .inl hdeep
        | succ i =>
            rw [Reader.items_succ] at has
            obtain ⟨a, after, hfirst, has⟩ := Reader.bind_eq_done.1 has
            obtain ⟨more, m, hmore, hpure⟩ := Reader.bind_eq_done.1 has
            cases hpure
            refine .inr ⟨a, after, hfirst, ?_⟩
            rw [deep_bind_shallow fun _ => shallow_pure _, ih]
            exact ⟨i, Nat.lt_of_succ_lt_succ hi, more, last, hmore, hdeep⟩

/-- An element of the bare vector at `c` begins at `start`, behind others that have been read. -/
def ElementBegins (r : Reader α) (c start : Cursor) : Prop :=
  ∃ n first, Reader.count c = .done n first ∧
    ∃ i < n, ∃ as, Reader.items r i first = .done as start

lemma deep_bareVector : Deep limit (Reader.bareVector r) c offset ↔
    ∃ start, ElementBegins r c start ∧ Deep limit r start offset := by
  unfold Reader.bareVector ElementBegins
  rw [deep_bind_of_shallow shallow_count]
  constructor
  · rintro ⟨n, first, hcount, hdeep⟩
    obtain ⟨i, hi, as, start, has, hdeep⟩ := (deep_items n).1 hdeep
    exact ⟨start, ⟨n, first, hcount, i, hi, as, has⟩, hdeep⟩
  · rintro ⟨start, ⟨n, first, hcount, i, hi, as, has⟩, hdeep⟩
    exact ⟨n, first, hcount, (deep_items n).2 ⟨i, hi, as, start, has, hdeep⟩⟩

lemma deep_afterVectorTag : Deep limit (Reader.afterVectorTag r) c offset ↔
    ∃ after, Reader.uint32 c = .done Tag.vector after ∧ Deep limit r after offset := by
  unfold Reader.afterVectorTag
  rw [deep_bind_of_shallow shallow_uint32]
  constructor
  · rintro ⟨tag, after, htag, hdeep⟩
    split_ifs at hdeep with hvector
    · exact ⟨after, hvector ▸ htag, hdeep⟩
    · exact absurd hdeep (shallow_unknownTag _ _ _ _)
  · rintro ⟨after, htag, hdeep⟩
    exact ⟨_, after, htag, by rwa [if_pos rfl]⟩

/-- The octets of an envelope at `c`, whose tag is the first thing there. -/
def Unpacks (maxInflated : ℕ) (c : Cursor) (octets : List UInt8) : Prop :=
  ∃ mark after, Reader.uint32 c = .done Tag.gzipPacked mark ∧
    Reader.opened maxInflated mark = .done octets after

/-- A boxed vector is one in the open or one in an envelope. -/
lemma deep_boxedVector {maxInflated : ℕ} :
    Deep limit (Reader.boxedVector maxInflated r) c offset ↔
      Deep limit (Reader.afterVectorTag (Reader.bareVector r)) c offset ∨
        ∃ octets, Unpacks maxInflated c octets ∧
          Deep limit (Reader.afterVectorTag (Reader.bareVector r)) (.start octets) offset := by
  have hother : ¬Tag.gzipPacked = Tag.vector := by decide
  unfold Reader.boxedVector Unpacks
  rw [deep_afterVectorTag, deep_bind_of_shallow shallow_uint32]
  constructor
  · rintro ⟨tag, after, htag, hdeep⟩
    split_ifs at hdeep with hvector hpacked
    · exact .inl ⟨after, hvector ▸ htag, hdeep⟩
    · obtain ⟨octets, last, hopened, hdeep⟩ := (deep_bind_of_shallow (shallow_opened _)).1 hdeep
      exact .inr ⟨octets, ⟨after, last, hpacked ▸ htag, hopened⟩, (deep_within octets).1 hdeep⟩
    · exact absurd hdeep (shallow_unknownTag _ _ _ _)
  · rintro (⟨after, htag, hdeep⟩ | ⟨octets, ⟨after, last, htag, hopened⟩, hdeep⟩)
    · exact ⟨_, after, htag, by rwa [if_pos rfl]⟩
    · refine ⟨_, after, htag, ?_⟩
      rw [if_neg hother, if_pos rfl, deep_bind_of_shallow (shallow_opened _)]
      exact ⟨octets, last, hopened, (deep_within octets).2 hdeep⟩

end TypeLang.Wire
