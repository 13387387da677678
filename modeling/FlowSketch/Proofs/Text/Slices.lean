import FlowSketch.Cst
import Mathlib.Data.List.Infix
import Mathlib.Tactic.SplitIfs

/-!
# Slices of encoded text

A slice of the bytes of a text, read leniently, is the part of the text that lies in the slice,
wherever the offsets fall. The bytes of a character are one lead byte and continuation bytes. No
character starts at a continuation byte, and none is read from fewer bytes than its own, so a
character that is cut at either end vanishes and takes nothing else with it.

* `Utf8.placed` — the characters of a text with the offsets at which they start.
* `Utf8.covered` — the characters all of whose bytes lie between two offsets.
* `Utf8.IsBoundary` — an offset that is not inside a character.

Results:

* `Utf8.decodeHead?_encodeChar`: a character is read from its own bytes.
* `Utf8.decodeHead?_append`: what is read from some bytes is read from them when more follow.
* `Utf8.decodeAfter_slice_char`: of a cut character nothing is left.
* `Utf8.isBoundary_iff`: the boundaries are where a beginning of the text ends.
* `Utf8.decode_slice_exact`: a slice holds the characters it covers, which stand together in the
  text, and slices that meet at a boundary hold what the slice over both holds.
-/

namespace FlowSketch.Utf8

/-! ## Places -/

/-- The characters of a text, each with the offset of its first byte, from an offset on. -/
def placed : (offset : Nat) → List Char → List (Nat × Char)
  | _, [] => []
  | offset, c :: cs => (offset, c) :: placed (offset + c.utf8Size) cs

/-- The bytes of a placed character all lie between two offsets. -/
def within (start stop : Nat) (p : Nat × Char) : Bool :=
  start ≤ p.1 && p.1 + p.2.utf8Size ≤ stop

/-- The characters of a text that starts at an offset, as far as all their bytes lie between two
    offsets. -/
def coveredFrom (offset : Nat) (cs : List Char) (start stop : Nat) : List Char :=
  ((placed offset cs).filter (within start stop)).map Prod.snd

/-- The characters of a text all of whose bytes lie between two offsets, in order. -/
def covered (s : String) (start stop : Nat) : List Char := coveredFrom 0 s.toList start stop

/-- No character has bytes on both sides of the offset. -/
def IsBoundary (s : String) (offset : Nat) : Prop :=
  ∀ p ∈ placed 0 s.toList, offset ≤ p.1 ∨ p.1 + p.2.utf8Size ≤ offset

instance (s : String) (offset : Nat) : Decidable (IsBoundary s offset) := by
  unfold IsBoundary
  infer_instance

/-! ## The bytes of a character -/

/-- A byte with which no character starts, as it goes on with one. -/
def IsContinuation (b : UInt8) : Prop := 0x80 ≤ b.toNat ∧ b.toNat < 0xC0

theorem toNat_ofNat_lead {n : Nat} (h : n < 256) : (UInt8.ofNat n).toNat = n := by
  rw [UInt8.toNat_ofNat']
  exact Nat.mod_eq_of_lt h

theorem isContinuation_sextet (n : Nat) : IsContinuation (UInt8.ofNat (n % 64 + 128)) := by
  unfold IsContinuation
  rw [toNat_ofNat_lead (by omega)]
  omega

theorem sextet?_ofNat (n : Nat) : sextet? (UInt8.ofNat (n % 64 + 128)) = some (n % 64) := by
  obtain ⟨hlow, hhigh⟩ := isContinuation_sextet n
  unfold sextet?
  rw [if_pos ⟨hlow, hhigh⟩, toNat_ofNat_lead (by omega), Nat.add_sub_cancel]

theorem charFrom?_toNat {c : Char} {low : Nat} (h : low ≤ c.val.toNat) :
    charFrom? low c.val.toNat = some c := by
  unfold charFrom?
  rw [if_pos ⟨h, c.valid⟩]
  exact congrArg some (Char.ofNat_toNat c)

theorem utf8Size_eq_length (c : Char) : c.utf8Size = (String.utf8EncodeChar c).length :=
  (String.length_utf8EncodeChar c).symm

/-- A character is read from its own bytes, whatever follows. -/
theorem decodeHead?_encodeChar (c : Char) (rest : List UInt8) :
    decodeHead? (String.utf8EncodeChar c ++ rest) = some (c, c.utf8Size) := by
  have hvalid : c.val.toNat < 0x110000 := by
    have := c.valid
    simp only [UInt32.isValidChar, Nat.isValidChar] at this
    omega
  rw [utf8Size_eq_length]
  unfold String.utf8EncodeChar
  generalize hv : c.val.toNat = v at hvalid ⊢
  simp only []
  split_ifs with h1 h2 h3
  · have hlead := toNat_ofNat_lead (n := v) (by omega)
    simp only [List.cons_append, List.nil_append, decodeHead?, hlead]
    rw [if_pos (by omega), ← hv, charFrom?_toNat (Nat.zero_le _)]
    rfl
  · have hlead := toNat_ofNat_lead (n := v / 64 % 32 + 192) (by omega)
    have hcode : (v / 64 % 32 + 192 - 0xC0) * 64 + v % 64 = v := by omega
    simp only [List.cons_append, List.nil_append, decodeHead?, hlead]
    rw [if_neg (by omega), if_pos (by omega)]
    simp only [List.getElem?_cons_zero, Option.bind_eq_bind, Option.bind_some, sextet?_ofNat, hcode]
    rw [← hv, charFrom?_toNat (by omega)]
    rfl
  · have hlead := toNat_ofNat_lead (n := v / 4096 % 16 + 224) (by omega)
    have hcode : ((v / 4096 % 16 + 224 - 0xE0) * 64 + v / 64 % 64) * 64 + v % 64 = v := by omega
    simp only [List.cons_append, List.nil_append, decodeHead?, hlead]
    rw [if_neg (by omega), if_neg (by omega), if_pos (by omega)]
    simp only [List.getElem?_cons_zero, List.getElem?_cons_succ, Option.bind_eq_bind,
      Option.bind_some, sextet?_ofNat, hcode]
    rw [← hv, charFrom?_toNat (by omega)]
    rfl
  · have hlead := toNat_ofNat_lead (n := v / 262144 % 8 + 240) (by omega)
    have hcode : (((v / 262144 % 8 + 240 - 0xF0) * 64 + v / 4096 % 64) * 64 + v / 64 % 64) * 64 +
        v % 64 = v := by omega
    simp only [List.cons_append, List.nil_append, decodeHead?, hlead]
    rw [if_neg (by omega), if_neg (by omega), if_neg (by omega), if_pos (by omega)]
    simp only [List.getElem?_cons_zero, List.getElem?_cons_succ, Option.bind_eq_bind,
      Option.bind_some, sextet?_ofNat, hcode]
    rw [← hv, charFrom?_toNat (by omega)]
    rfl

/-- All bytes of a character but the first go on with it. -/
theorem isContinuation_of_mem_tail {c : Char} {b : UInt8}
    (h : b ∈ (String.utf8EncodeChar c).tail) : IsContinuation b := by
  unfold String.utf8EncodeChar at h
  simp only [] at h
  split_ifs at h
  · simp at h
  · rw [List.tail_cons, List.mem_singleton] at h
    rw [h]
    exact isContinuation_sextet _
  · rw [List.tail_cons, List.mem_pair] at h
    rcases h with h | h <;> rw [h] <;> exact isContinuation_sextet _
  · rw [List.tail_cons, List.mem_cons, List.mem_pair] at h
    rcases h with h | h | h <;> rw [h] <;> exact isContinuation_sextet _

/-! ## Reading -/

theorem decodeHead?_of_isContinuation {b : UInt8} (h : IsContinuation b) (rest : List UInt8) :
    decodeHead? (b :: rest) = none := by
  obtain ⟨hlow, hhigh⟩ := h
  simp only [decodeHead?]
  rw [if_neg (by omega), if_neg (by omega), if_neg (by omega), if_neg (by omega)]

/-- What is read from some bytes is read from them when more follow. -/
theorem decodeHead?_append {bytes : List UInt8} {c : Char} {n : Nat}
    (h : decodeHead? bytes = some (c, n)) (more : List UInt8) :
    n ≤ bytes.length ∧ decodeHead? (bytes ++ more) = some (c, n) := by
  cases bytes with
  | nil => simp [decodeHead?] at h
  | cons a rest =>
    have hget : ∀ {i : Nat} {b : UInt8}, rest[i]? = some b →
        i < rest.length ∧ (rest ++ more)[i]? = some b := by
      intro i b hb
      have hi := (List.getElem?_eq_some_iff.1 hb).1
      exact ⟨hi, by rwa [List.getElem?_append_left hi]⟩
    simp only [List.cons_append, decodeHead?, List.length_cons] at h ⊢
    -- one case for each number of bytes: those behind the first are at the same places
    split_ifs at h ⊢ <;>
      simp only [Option.bind_eq_bind, Option.bind_eq_some_iff, Option.pure_def, Option.some.injEq,
        Prod.mk.injEq] at h ⊢
    · obtain ⟨d, hd, hc, rfl⟩ := h
      exact ⟨Nat.le_add_left 1 _, d, hd, hc, rfl⟩
    · obtain ⟨x, ⟨b, hb, hx⟩, d, hd, hc, rfl⟩ := h
      have := (hget hb).1
      exact ⟨by omega, x, ⟨b, (hget hb).2, hx⟩, d, hd, hc, rfl⟩
    · obtain ⟨x, ⟨b, hb, hx⟩, y, ⟨b', hb', hy⟩, d, hd, hc, rfl⟩ := h
      have := (hget hb').1
      exact ⟨by omega, x, ⟨b, (hget hb).2, hx⟩, y, ⟨b', (hget hb').2, hy⟩, d, hd, hc, rfl⟩
    · obtain ⟨x, ⟨b, hb, hx⟩, y, ⟨b', hb', hy⟩, z, ⟨b'', hb'', hz⟩, d, hd, hc, rfl⟩ := h
      have := (hget hb'').1
      exact ⟨by omega, x, ⟨b, (hget hb).2, hx⟩, y, ⟨b', (hget hb').2, hy⟩, z,
        ⟨b'', (hget hb'').2, hz⟩, d, hd, hc, rfl⟩

/-- Nothing is read from the first bytes of a character as long as one is missing. -/
theorem decodeHead?_take {c : Char} {k : Nat} (h : k < c.utf8Size) :
    decodeHead? ((String.utf8EncodeChar c).take k) = none := by
  by_contra hne
  obtain ⟨⟨d, n⟩, hd⟩ := Option.ne_none_iff_exists'.1 hne
  obtain ⟨hle, hwhole⟩ := decodeHead?_append hd ((String.utf8EncodeChar c).drop k)
  have hown := decodeHead?_encodeChar c []
  rw [List.take_append_drop] at hwhole
  rw [List.append_nil, hwhole] at hown
  have hn : n = c.utf8Size := congrArg Prod.snd (Option.some.inj hown)
  rw [List.length_take] at hle
  omega

theorem decodeAfter_length (skipped rest : List UInt8) :
    decodeAfter skipped.length (skipped ++ rest) = decodeAfter 0 rest := by
  induction skipped with
  | nil => rfl
  | cons b skipped ih => exact ih

theorem decodeAfter_encodeChar (c : Char) (rest : List UInt8) :
    decodeAfter 0 (String.utf8EncodeChar c ++ rest) = c :: decodeAfter 0 rest := by
  have hhead := decodeHead?_encodeChar c rest
  have hlen := utf8Size_eq_length c
  cases he : String.utf8EncodeChar c with
  | nil => exact absurd he String.utf8EncodeChar_ne_nil
  | cons a tail =>
    rw [he] at hhead hlen
    rw [List.cons_append] at hhead ⊢
    rw [decodeAfter, hhead]
    simp only [hlen, List.length_cons, Nat.add_sub_cancel, decodeAfter_length]

theorem decodeAfter_continuation {skipped : List UInt8} (h : ∀ b ∈ skipped, IsContinuation b)
    (rest : List UInt8) : decodeAfter 0 (skipped ++ rest) = decodeAfter 0 rest := by
  induction skipped with
  | nil => rfl
  | cons b skipped ih =>
    rw [List.forall_mem_cons] at h
    rw [List.cons_append, decodeAfter, decodeHead?_of_isContinuation h.1]
    exact ih h.2

/-- The first bytes of a character hold nothing as long as one is missing. -/
theorem decodeAfter_take {c : Char} {k : Nat} (h : k < c.utf8Size) :
    decodeAfter 0 ((String.utf8EncodeChar c).take k) = [] := by
  have hhead := decodeHead?_take h
  cases he : (String.utf8EncodeChar c).take k with
  | nil => rfl
  | cons a tail =>
    rw [he] at hhead
    have htail : ∀ b ∈ tail, IsContinuation b := by
      intro b hb
      apply isContinuation_of_mem_tail (c := c)
      have hsub := (List.take_prefix k (String.utf8EncodeChar c)).sublist.tail
      rw [he] at hsub
      exact hsub.subset hb
    rw [decodeAfter, hhead]
    have := decodeAfter_continuation htail []
    rwa [List.append_nil] at this

/-! ## Slices -/

theorem slice_append (bytes rest : List UInt8) (start stop : Nat) :
    slice (bytes ++ rest) start stop =
      slice bytes start stop ++ slice rest (start - bytes.length) (stop - bytes.length) := by
  unfold slice
  rw [List.take_append, List.drop_append, List.length_take]
  by_cases h : stop ≤ bytes.length
  · rw [Nat.sub_eq_zero_of_le h]
    simp
  · rw [Nat.min_eq_right (by omega)]

theorem slice_stop_zero (bytes : List UInt8) (start : Nat) : slice bytes start 0 = [] := by
  unfold slice
  rw [List.take_zero, List.drop_nil]

/-- A slice of a character holds it if the slice is whole, and else nothing. What follows a
    character that is cut at its end is nothing. -/
theorem decodeAfter_slice_char (c : Char) (start stop : Nat) {rest : List UInt8}
    (hrest : stop < c.utf8Size → rest = []) :
    decodeAfter 0 (slice (String.utf8EncodeChar c) start stop ++ rest) =
      (if start = 0 ∧ c.utf8Size ≤ stop then [c] else []) ++ decodeAfter 0 rest := by
  have hlen := utf8Size_eq_length c
  by_cases hstart : start = 0
  · by_cases hstop : c.utf8Size ≤ stop
    · rw [if_pos ⟨hstart, hstop⟩, slice, hstart, List.drop_zero,
        List.take_of_length_le (by omega)]
      exact decodeAfter_encodeChar c rest
    · rw [if_neg (by tauto), hrest (by omega), List.append_nil, slice, hstart, List.drop_zero]
      exact decodeAfter_take (by omega)
  · -- the lead byte is cut off, so that only continuation bytes are left
    rw [if_neg (by tauto)]
    apply decodeAfter_continuation
    intro b hb
    apply isContinuation_of_mem_tail (c := c)
    rw [slice, List.drop_take] at hb
    have hdrop := List.mem_of_mem_take hb
    rw [← List.drop_one]
    exact (List.drop_sublist_drop_left _ (by omega)).subset hdrop

/-! ## What is covered -/

variable {offset start stop : Nat} {cs : List Char}

theorem coveredFrom_cons (offset start stop : Nat) (c : Char) (cs : List Char) :
    coveredFrom offset (c :: cs) start stop =
      (if start ≤ offset ∧ offset + c.utf8Size ≤ stop then [c] else []) ++
        coveredFrom (offset + c.utf8Size) cs start stop := by
  unfold coveredFrom
  rw [placed, List.filter_cons]
  simp only [within, Bool.and_eq_true, decide_eq_true_eq]
  split_ifs <;> rfl

theorem coveredFrom_eq_nil (h : stop ≤ offset) : coveredFrom offset cs start stop = [] := by
  induction cs generalizing offset with
  | nil => rfl
  | cons c cs ih =>
    have := c.utf8Size_pos
    rw [coveredFrom_cons, if_neg (by omega), ih (by omega), List.append_nil]

/-- Read leniently, a slice of the bytes of some characters holds the characters it covers. The
    induction is on the characters, whose offset the offsets of the slice are compared with. -/
theorem decodeAfter_slice (offset start stop : Nat) (cs : List Char) :
    decodeAfter 0 (slice (cs.flatMap String.utf8EncodeChar) (start - offset) (stop - offset)) =
      coveredFrom offset cs start stop := by
  induction cs generalizing offset with
  | nil => simp [slice, coveredFrom, placed, decodeAfter]
  | cons c cs ih =>
    have hpos := c.utf8Size_pos
    have hcut : stop - offset < c.utf8Size →
        slice (cs.flatMap String.utf8EncodeChar) (start - (offset + c.utf8Size))
          (stop - (offset + c.utf8Size)) = [] := by
      intro h
      rw [Nat.sub_eq_zero_of_le (show stop ≤ offset + c.utf8Size by omega), slice_stop_zero]
    rw [List.flatMap_cons, slice_append, ← utf8Size_eq_length, Nat.sub_sub, Nat.sub_sub,
      decodeAfter_slice_char c _ _ hcut, ih, coveredFrom_cons]
    congr 1
    by_cases h : start ≤ offset ∧ offset + c.utf8Size ≤ stop
    · rw [if_pos h, if_pos (by omega)]
    · rw [if_neg h, if_neg (by omega)]

theorem coveredFrom_isPrefix (h : start ≤ offset) : coveredFrom offset cs start stop <+: cs := by
  induction cs generalizing offset with
  | nil => exact List.prefix_rfl
  | cons c cs ih =>
    rw [coveredFrom_cons]
    by_cases hfit : offset + c.utf8Size ≤ stop
    · rw [if_pos ⟨h, hfit⟩]
      exact List.cons_prefix_cons.2 ⟨rfl, ih (by omega)⟩
    · rw [if_neg (by tauto), coveredFrom_eq_nil (by omega)]
      exact List.nil_prefix

theorem coveredFrom_isInfix : coveredFrom offset cs start stop <:+: cs := by
  induction cs generalizing offset with
  | nil => exact List.infix_rfl
  | cons c cs ih =>
    by_cases h : start ≤ offset
    · exact (coveredFrom_isPrefix h).isInfix
    · rw [coveredFrom_cons, if_neg (by tauto)]
      exact List.infix_cons ih

/-- What is covered up to a boundary and from there on is what is covered on the whole. -/
theorem coveredFrom_append {middle : Nat} (hstart : start ≤ middle) (hstop : middle ≤ stop)
    (h : ∀ p ∈ placed offset cs, middle ≤ p.1 ∨ p.1 + p.2.utf8Size ≤ middle) :
    coveredFrom offset cs start middle ++ coveredFrom offset cs middle stop =
      coveredFrom offset cs start stop := by
  induction cs generalizing offset with
  | nil => rfl
  | cons c cs ih =>
    have hpos := c.utf8Size_pos
    rw [placed, List.forall_mem_cons] at h
    have ih := ih h.2
    simp only [coveredFrom_cons]
    by_cases hfirst : offset + c.utf8Size ≤ middle
    · rw [if_neg (show ¬(middle ≤ offset ∧ _) by omega), List.nil_append, List.append_assoc, ih]
      congr 1
      by_cases hs : start ≤ offset
      · rw [if_pos ⟨hs, hfirst⟩, if_pos (by omega)]
      · rw [if_neg (by omega), if_neg (by omega)]
    · -- the first part ends before this character
      have hmiddle : middle ≤ offset := h.1.resolve_right hfirst
      have hnone : coveredFrom (offset + c.utf8Size) cs start middle = [] :=
        coveredFrom_eq_nil (by omega)
      rw [if_neg (show ¬(start ≤ offset ∧ _) by omega), List.nil_append]
      rw [hnone, List.nil_append] at ih ⊢
      rw [ih]
      congr 1
      by_cases hs : offset + c.utf8Size ≤ stop
      · rw [if_pos (by omega), if_pos (by omega)]
      · rw [if_neg (by omega), if_neg (by omega)]

/-! ## Boundaries -/

theorem le_of_mem_placed {p : Nat × Char} (h : p ∈ placed offset cs) : offset ≤ p.1 := by
  induction cs generalizing offset with
  | nil => simp [placed] at h
  | cons c cs ih =>
    rcases List.mem_cons.1 h with rfl | h
    · exact Nat.le_refl offset
    · have := ih h
      omega

/-- The bytes of a text are those of its first character and the rest. -/
theorem add_length_encode_cons (offset : Nat) (c : Char) (cs : List Char) :
    offset + ((c :: cs).flatMap String.utf8EncodeChar).length =
      offset + c.utf8Size + (cs.flatMap String.utf8EncodeChar).length := by
  rw [List.flatMap_cons, List.length_append, utf8Size_eq_length, Nat.add_assoc]

/-- An offset behind the start of a text is inside no character exactly if it lies behind the whole
    text or behind a beginning of it. -/
theorem forall_mem_placed_iff {middle : Nat} (h : offset ≤ middle) :
    (∀ p ∈ placed offset cs, middle ≤ p.1 ∨ p.1 + p.2.utf8Size ≤ middle) ↔
      offset + (cs.flatMap String.utf8EncodeChar).length ≤ middle ∨
        ∃ front, front <+: cs ∧ offset + (front.flatMap String.utf8EncodeChar).length = middle := by
  induction cs generalizing offset with
  | nil => simpa [placed] using Or.inl h
  | cons c cs ih =>
    rw [placed, List.forall_mem_cons, add_length_encode_cons]
    by_cases hstart : middle = offset
    · have hall : ∀ p ∈ placed (offset + c.utf8Size) cs,
          middle ≤ p.1 ∨ p.1 + p.2.utf8Size ≤ middle := by
        intro p hp
        have := le_of_mem_placed hp
        exact .inl (by omega)
      exact ⟨fun _ => .inr ⟨[], List.nil_prefix, hstart.symm⟩, fun _ => ⟨.inl (by omega), hall⟩⟩
    · -- behind the start, a beginning of the text that ends here has the first character
      have hfront : (∃ front, front <+: c :: cs ∧
          offset + (front.flatMap String.utf8EncodeChar).length = middle) ↔
          ∃ front, front <+: cs ∧
            offset + c.utf8Size + (front.flatMap String.utf8EncodeChar).length = middle := by
        constructor
        · rintro ⟨front, hprefix, hsum⟩
          rcases List.prefix_cons_iff.1 hprefix with rfl | ⟨behind, rfl, hbehind⟩
          · exact absurd hsum.symm hstart
          · rw [add_length_encode_cons] at hsum
            exact ⟨behind, hbehind, hsum⟩
        · rintro ⟨front, hprefix, hsum⟩
          refine ⟨c :: front, List.cons_prefix_cons.2 ⟨rfl, hprefix⟩, ?_⟩
          rwa [add_length_encode_cons]
      rw [hfront]
      clear hfront
      by_cases hfirst : offset + c.utf8Size ≤ middle
      · rw [← ih hfirst]
        exact ⟨fun h => h.2, fun h => ⟨.inr hfirst, h⟩⟩
      · constructor
        · rintro ⟨hinside, -⟩
          exact absurd hinside (by simp only; omega)
        · intro hend
          rcases hend with hend | ⟨front, -, hsum⟩
          · omega
          · omega

/-- The boundaries are the offsets behind a beginning of the text, and those behind the text. -/
theorem isBoundary_iff (s : String) (offset : Nat) :
    IsBoundary s offset ↔ (encode s).length ≤ offset ∨
      ∃ front, front <+: s.toList ∧ (front.flatMap String.utf8EncodeChar).length = offset := by
  have h : IsBoundary s offset ↔ _ := forall_mem_placed_iff (Nat.zero_le offset)
  rw [h, encode]
  simp only [Nat.zero_add]

/-! ## Texts of slices -/

/-- For any two offsets into the bytes of a text, the slice between them holds exactly the
    characters all of whose bytes lie in it, which stand together in the text, and so does the text
    of a syntax node. Two slices that meet at a boundary hold together what the slice over both
    holds. -/
theorem decode_slice_exact (s : String) (start stop : Nat) :
    (decode (slice (encode s) start stop)).toList = covered s start stop ∧
    (∀ n : Cst, (n.text (encode s)).toList = covered s n.start n.stop) ∧
    covered s start stop <:+: s.toList ∧
    ∀ middle, start ≤ middle → middle ≤ stop → IsBoundary s middle →
      decode (slice (encode s) start middle) ++ decode (slice (encode s) middle stop) =
        decode (slice (encode s) start stop) := by
  have hread : ∀ i j, decode (slice (encode s) i j) = String.ofList (covered s i j) :=
    fun i j => congrArg String.ofList (decodeAfter_slice 0 i j s.toList)
  refine ⟨?_, fun n => ?_, coveredFrom_isInfix, fun middle hstart hstop hmiddle => ?_⟩
  · rw [hread, String.toList_ofList]
  · rw [Cst.text, hread, String.toList_ofList]
  · rw [hread, hread, hread, ← String.ofList_append, covered, covered,
      coveredFrom_append hstart hstop hmiddle, covered]

/-- The bytes of `é€😀` are two, three and four. A slice that begins inside the first character and
    ends inside the last holds the middle one, and the boundary behind that one parts the text. -/
theorem decode_slice_exact_cut :
    (decode (slice (encode "é€😀") 1 8)).toList = ['€'] ∧ IsBoundary "é€😀" 5 ∧
      decode (slice (encode "é€😀") 1 5) ++ decode (slice (encode "é€😀") 5 12) =
        decode (slice (encode "é€😀") 1 12) := by
  have hboundary : IsBoundary "é€😀" 5 := by decide
  refine ⟨?_, hboundary, ?_⟩
  · rw [(decode_slice_exact "é€😀" 1 8).1]
    decide
  · exact (decode_slice_exact "é€😀" 1 12).2.2.2 5 (by decide) (by decide) hboundary

end FlowSketch.Utf8
