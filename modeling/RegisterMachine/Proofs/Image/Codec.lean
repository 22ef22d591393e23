import Mathlib.Algebra.Group.Nat.Defs
import RegisterMachine.Image.Codec
import RegisterMachine.Proofs.Result
import RegisterMachine.Proofs.Text.Utf8

/-!
# Laws of codecs

A decoder is local if the bytes behind those that it takes make no difference. A codec is lawful if
its decoder is local, gives back what was written, and refuses what was written of a value that is
too large for the format. The laws hold for the codecs of numbers and texts, and every combination
keeps them, so a codec that is put together from parts is lawful by its construction.
-/

namespace RegisterMachine

namespace Decoder

variable {α β : Type} {d : Decoder α} {f : α → Decoder β} {bs rest : List UInt8}

theorem run_bind_eq_ok_iff {b : β} :
    (d >>= f).run bs = .ok (b, rest) ↔
      ∃ a middle, d.run bs = .ok (a, middle) ∧ (f a).run middle = .ok (b, rest) := by
  rw [StateT.run_bind, bind_eq_ok_iff]
  exact Prod.exists

theorem run_bind_of_ok {a : α} (h : d.run bs = .ok (a, rest)) :
    (d >>= f).run bs = (f a).run rest := by
  rw [StateT.run_bind, h]
  rfl

theorem run_bind_of_error {e : DecodeError} (h : d.run bs = .error e) :
    (d >>= f).run bs = .error e := by
  rw [StateT.run_bind, h]
  rfl

theorem run_pure_eq_ok_iff {a b : α} :
    (pure a : Decoder α).run bs = .ok (b, rest) ↔ a = b ∧ bs = rest := by
  simp [StateT.run_pure]

theorem run_throw (e : DecodeError) : (throw e : Decoder α).run bs = .error e := rfl

/-- Whether more bytes follow is not seen by a read that succeeds. -/
def IsLocal (d : Decoder α) : Prop :=
  ∀ bs a rest, d.run bs = .ok (a, rest) → ∀ more, d.run (bs ++ more) = .ok (a, rest ++ more)

theorem isLocal_pure (a : α) : IsLocal (pure a) := by
  intro bs b rest h more
  obtain ⟨rfl, rfl⟩ := run_pure_eq_ok_iff.1 h
  rfl

theorem isLocal_throw (e : DecodeError) : IsLocal (throw e : Decoder α) := by
  intro bs a rest h
  rw [run_throw] at h
  cases h

theorem IsLocal.bind (hd : IsLocal d) (hf : ∀ a, IsLocal (f a)) : IsLocal (d >>= f) := by
  intro bs b rest h more
  obtain ⟨a, middle, ha, hb⟩ := run_bind_eq_ok_iff.1 h
  rw [run_bind_of_ok (hd bs a middle ha more)]
  exact hf a middle b rest hb more

end Decoder

namespace Codec

open Decoder

/-- The laws of a codec for values of which those that satisfy `Fits` can be represented. -/
structure Lawful {α : Type} (c : Codec α) (Fits : α → Prop) : Prop where
  isLocal : IsLocal c.read
  read_write {x : α} (h : Fits x) (rest : List UInt8) :
    c.read.run (c.write x ++ rest) = .ok (x, rest)
  refuse {x : α} (h : ¬ Fits x) (rest : List UInt8) :
    ∃ e, c.read.run (c.write x ++ rest) = .error e

variable {α β : Type} {c : Codec α} {d : Codec β} {F : α → Prop} {G : β → Prop}
variable {bs rest : List UInt8} {last groups n : Nat}

theorem Lawful.congr {F' : α → Prop} (h : c.Lawful F) (hF : ∀ x, F' x ↔ F x) : c.Lawful F' where
  isLocal := h.isLocal
  read_write hx := h.read_write ((hF _).1 hx)
  refuse hx := h.refuse fun hx' => hx ((hF _).2 hx')

/-- No part of what was written reads as a value, not even as another one. -/
theorem Lawful.refuse_of_isPrefix (h : c.Lawful F) {x : α} (hbs : bs <+: c.write x)
    (hne : bs ≠ c.write x) : ∃ e, c.read.run bs = .error e := by
  obtain ⟨more, hmore⟩ := hbs
  cases hr : c.read.run bs with
  | error e => exact ⟨e, rfl⟩
  | ok r =>
    obtain ⟨y, rest⟩ := r
    have hlong : c.read.run (c.write x ++ []) = .ok (y, rest ++ more) := by
      rw [List.append_nil, ← hmore]
      exact h.isLocal bs y rest hr more
    by_cases hx : F x
    · rw [h.read_write hx] at hlong
      injection hlong with hpair
      have hnil : rest ++ more = [] := (Prod.mk.inj hpair).2.symm
      rw [(List.append_eq_nil_iff.1 hnil).2, List.append_nil] at hmore
      exact absurd hmore hne
    · obtain ⟨e, he⟩ := h.refuse hx []
      rw [he] at hlong
      cases hlong

theorem isLocal_readByte : IsLocal readByte := by
  intro bs b rest h more
  cases bs with
  | nil => cases h
  | cons b' bs =>
    cases h
    rfl

theorem run_readByte (b : UInt8) : readByte.run (b :: bs) = .ok (b, bs) := rfl

theorem lawful_byte : byte.Lawful fun _ => True where
  isLocal := isLocal_readByte
  read_write _ _ := run_readByte _
  refuse h := absurd trivial h

theorem isLocal_readGroups (last groups : Nat) : IsLocal (readGroups last groups) := by
  induction groups with
  | zero => exact isLocal_throw _
  | succ groups ih =>
    refine isLocal_readByte.bind fun b => ?_
    split
    · split
      · exact isLocal_throw _
      · exact isLocal_pure _
    · exact ih.bind fun high => isLocal_pure _

theorem run_readGroups_low {b : UInt8} (hb : b.toNat < 128)
    (hlast : groups = 0 → b.toNat ≤ last) :
    (readGroups last (groups + 1)).run (b :: bs) = .ok (b.toNat, bs) := by
  have hfit : ¬ (groups = 0 ∧ last < b.toNat) := fun ⟨hg, hlt⟩ => Nat.not_lt.2 (hlast hg) hlt
  rw [readGroups, run_bind_of_ok (run_readByte b), if_pos hb, if_neg hfit]
  rfl

theorem run_readGroups_overlong {b : UInt8} (hb : b.toNat < 128) (hlast : last < b.toNat) :
    (readGroups last 1).run (b :: bs) = .error .overlongNumber := by
  rw [readGroups, run_bind_of_ok (run_readByte b), if_pos hb, if_pos ⟨rfl, hlast⟩]
  rfl

theorem run_readGroups_high {b : UInt8} (hb : 128 ≤ b.toNat) :
    (readGroups last (groups + 1)).run (b :: bs) =
      (readGroups last groups >>= fun high => pure (b.toNat - 128 + 128 * high)).run bs := by
  rw [readGroups, run_bind_of_ok (run_readByte b), if_neg (Nat.not_lt.2 hb)]

theorem writeGroups_of_lt (h : n < 128) : writeGroups n = [UInt8.ofNat n] := by
  rw [writeGroups, if_pos h]

theorem writeGroups_of_le (h : 128 ≤ n) :
    writeGroups n = UInt8.ofNat (128 + n % 128) :: writeGroups (n / 128) := by
  rw [writeGroups, if_neg (Nat.not_lt.2 h)]

theorem toNat_ofNat_low (h : n < 128) : (UInt8.ofNat n).toNat = n := by
  rw [UInt8.toNat_ofNat', Nat.mod_eq_of_lt (by omega)]

theorem toNat_ofNat_high (n : Nat) : (UInt8.ofNat (128 + n % 128)).toNat = 128 + n % 128 := by
  rw [UInt8.toNat_ofNat', Nat.mod_eq_of_lt (by omega)]

/-- The induction is on the number of groups that are allowed behind the first one. -/
theorem run_readGroups_writeGroups (hlast : last < 128) (h : n < (last + 1) * 128 ^ groups) :
    (readGroups last (groups + 1)).run (writeGroups n ++ rest) = .ok (n, rest) := by
  induction groups generalizing n with
  | zero =>
    have hn : n ≤ last := by omega
    have hb := toNat_ofNat_low (Nat.lt_of_le_of_lt hn hlast)
    rw [writeGroups_of_lt (by omega), List.singleton_append,
      run_readGroups_low (by omega) (fun _ => by omega), hb]
  | succ groups ih =>
    by_cases hn : n < 128
    · have hb := toNat_ofNat_low hn
      rw [writeGroups_of_lt hn, List.singleton_append,
        run_readGroups_low (by omega) (fun hg => by omega), hb]
    · have hb := toNat_ofNat_high n
      have hdiv : n / 128 < (last + 1) * 128 ^ groups := by
        rw [Nat.pow_succ, ← Nat.mul_assoc] at h
        exact (Nat.div_lt_iff_lt_mul (by decide)).2 h
      have hvalue : 128 + n % 128 - 128 + 128 * (n / 128) = n := by omega
      rw [writeGroups_of_le (by omega), List.cons_append, run_readGroups_high (by omega),
        run_bind_of_ok (ih hdiv), hb, hvalue]
      rfl

theorem run_readGroups_writeGroups_of_le (h : (last + 1) * 128 ^ groups ≤ n) :
    ∃ e, (readGroups last (groups + 1)).run (writeGroups n ++ rest) = .error e := by
  induction groups generalizing n with
  | zero =>
    have hn : last < n := by omega
    by_cases hlow : n < 128
    · have hb := toNat_ofNat_low hlow
      rw [writeGroups_of_lt hlow, List.singleton_append]
      exact ⟨_, run_readGroups_overlong (by omega) (by omega)⟩
    · have hb := toNat_ofNat_high n
      rw [writeGroups_of_le (by omega), List.cons_append, run_readGroups_high (by omega)]
      exact ⟨_, run_bind_of_error (run_throw _)⟩
  | succ groups ih =>
    have hdiv : (last + 1) * 128 ^ groups ≤ n / 128 := by
      rw [Nat.pow_succ, ← Nat.mul_assoc] at h
      exact (Nat.le_div_iff_mul_le (by decide)).2 h
    have hpos : 0 < (last + 1) * 128 ^ groups :=
      Nat.mul_pos (Nat.succ_pos _) (Nat.pow_pos (by decide))
    have hb := toNat_ofNat_high n
    obtain ⟨e, he⟩ := ih hdiv
    rw [writeGroups_of_le (by omega), List.cons_append, run_readGroups_high (by omega)]
    exact ⟨e, run_bind_of_error he⟩

theorem isLocal_word : IsLocal word.read :=
  (isLocal_readGroups 15 5).bind fun _ => isLocal_pure _

theorem run_word (hn : n < 2 ^ 32) :
    word.read.run (writeGroups n ++ rest) = .ok (UInt32.ofNat n, rest) := by
  show (readGroups 15 5 >>= _).run _ = _
  rw [run_bind_of_ok (run_readGroups_writeGroups (by decide) hn)]
  rfl

theorem lawful_word : word.Lawful fun _ => True where
  isLocal := isLocal_word
  read_write {n} _ rest := by
    show word.read.run (writeGroups n.toNat ++ rest) = _
    rw [run_word n.toNat_lt, UInt32.ofNat_toNat]
  refuse h := absurd trivial h

theorem lawful_size : size.Lawful (· < 2 ^ 64) where
  isLocal := isLocal_readGroups 1 10
  read_write h _ := run_readGroups_writeGroups (by decide) h
  refuse h _ := run_readGroups_writeGroups_of_le (Nat.le_of_not_lt h)

theorem lawful_pattern : pattern.Lawful fun _ => True where
  isLocal :=
    isLocal_readByte.bind fun _ => isLocal_readByte.bind fun _ => isLocal_readByte.bind fun _ =>
      isLocal_readByte.bind fun _ => isLocal_pure _
  read_write {w} _ rest := by
    show Except.ok (Word.ofBytes _ _ _ _, rest) = _
    rw [Word.ofBytes_toBytes]
  refuse h := absurd trivial h

theorem unzigzag_zigzag (i : Int) : unzigzag (zigzag i) = i := by
  unfold zigzag unzigzag
  split
  · rw [if_neg (by omega)]
    omega
  · rw [if_pos (by omega)]
    omega

theorem lawful_int : int.Lawful fun _ => True where
  isLocal := (isLocal_readGroups 15 5).bind fun _ => isLocal_pure _
  read_write {i} _ rest := by
    have hlo := i.le_toInt
    have hhi := i.toInt_lt
    have hi : zigzag i.toInt < (15 + 1) * 128 ^ 4 := by
      unfold zigzag
      split <;> omega
    show (readGroups 15 5 >>= _).run _ = _
    rw [int, run_bind_of_ok (run_readGroups_writeGroups (by decide) hi), unzigzag_zigzag,
      Int32.ofInt_toInt]
    rfl
  refuse h := absurd trivial h

theorem run_readBytes (count : Nat) (bs : List UInt8) :
    (readBytes count).run bs =
      if count ≤ bs.length then .ok (bs.take count, bs.drop count) else .error .endOfInput := by
  rw [← List.splitAt_eq]
  rfl

theorem isLocal_readBytes (count : Nat) : IsLocal (readBytes count) := by
  intro bs a rest h more
  rw [run_readBytes] at h ⊢
  split at h
  · rename_i hcount
    obtain ⟨rfl, rfl⟩ := Prod.mk.inj (Except.ok.inj h)
    have hmore : count ≤ (bs ++ more).length := by
      rw [List.length_append]
      omega
    rw [if_pos hmore, List.take_append_of_le_length hcount, List.drop_append_of_le_length hcount]
  · cases h

theorem run_readBytes_append (bs rest : List UInt8) :
    (readBytes bs.length).run (bs ++ rest) = .ok (bs, rest) := by
  rw [run_readBytes, if_pos (by simp), List.take_left, List.drop_left]

theorem lawful_text : text.Lawful fun s => (Utf8.encode s).length < 2 ^ 64 where
  isLocal := by
    refine lawful_size.isLocal.bind fun count => (isLocal_readBytes count).bind fun bytes => ?_
    split
    · exact isLocal_pure _
    · exact isLocal_throw _
  read_write {s} h rest := by
    show (size.read >>= _).run _ = _
    rw [text, List.append_assoc, run_bind_of_ok (lawful_size.read_write h _),
      run_bind_of_ok (run_readBytes_append _ _)]
    rw [Utf8.decode?_encode]
    rfl
  refuse {s} h rest := by
    obtain ⟨e, he⟩ := lawful_size.refuse h (Utf8.encode s ++ rest)
    refine ⟨e, ?_⟩
    show (size.read >>= _).run _ = _
    rw [text, List.append_assoc]
    exact run_bind_of_error he

theorem isLocal_readMany (hc : IsLocal c.read) (count : Nat) : IsLocal (c.readMany count) := by
  induction count with
  | zero => exact isLocal_pure _
  | succ count ih => exact hc.bind fun x => ih.bind fun xs => isLocal_pure _

theorem Lawful.run_readMany (h : c.Lawful F) {xs : List α} (hxs : ∀ x ∈ xs, F x) :
    (c.readMany xs.length).run (xs.flatMap c.write ++ rest) = .ok (xs, rest) := by
  induction xs with
  | nil => rfl
  | cons x xs ih =>
    have hx := h.read_write (hxs x List.mem_cons_self) (xs.flatMap c.write ++ rest)
    have hrest := ih fun y hy => hxs y (List.mem_cons_of_mem x hy)
    rw [List.flatMap_cons, List.append_assoc, List.length_cons, readMany, run_bind_of_ok hx,
      run_bind_of_ok hrest]
    rfl

theorem Lawful.run_readMany_refuse (h : c.Lawful F) {xs : List α} (hxs : ¬ ∀ x ∈ xs, F x) :
    ∃ e, (c.readMany xs.length).run (xs.flatMap c.write ++ rest) = .error e := by
  induction xs with
  | nil => exact absurd (fun _ => nofun) hxs
  | cons x xs ih =>
    rw [List.flatMap_cons, List.append_assoc, List.length_cons, readMany]
    by_cases hx : F x
    · obtain ⟨e, he⟩ := ih fun hall => hxs (List.forall_mem_cons.2 ⟨hx, hall⟩)
      refine ⟨e, ?_⟩
      rw [run_bind_of_ok (h.read_write hx _)]
      exact run_bind_of_error he
    · obtain ⟨e, he⟩ := h.refuse hx (xs.flatMap c.write ++ rest)
      exact ⟨e, run_bind_of_error he⟩

theorem Lawful.list (h : c.Lawful F) :
    c.list.Lawful fun xs => xs.length < 2 ^ 64 ∧ ∀ x ∈ xs, F x where
  isLocal := lawful_size.isLocal.bind fun count => isLocal_readMany h.isLocal count
  read_write {xs} hxs rest := by
    show (size.read >>= _).run _ = _
    rw [Codec.list, List.append_assoc, run_bind_of_ok (lawful_size.read_write hxs.1 _)]
    exact h.run_readMany hxs.2
  refuse {xs} hxs rest := by
    show ∃ e, (size.read >>= _).run _ = _
    rw [Codec.list, List.append_assoc]
    by_cases hlen : xs.length < 2 ^ 64
    · rw [run_bind_of_ok (lawful_size.read_write hlen _)]
      exact h.run_readMany_refuse fun hall => hxs ⟨hlen, hall⟩
    · obtain ⟨e, he⟩ := lawful_size.refuse hlen (xs.flatMap c.write ++ rest)
      exact ⟨e, run_bind_of_error he⟩

theorem Lawful.pair (hc : c.Lawful F) (hd : d.Lawful G) :
    (c.pair d).Lawful fun x => F x.1 ∧ G x.2 where
  isLocal := hc.isLocal.bind fun _ => hd.isLocal.bind fun _ => isLocal_pure _
  read_write {x} hx rest := by
    show (c.read >>= _).run _ = _
    rw [Codec.pair, List.append_assoc, run_bind_of_ok (hc.read_write hx.1 _),
      run_bind_of_ok (hd.read_write hx.2 _)]
    rfl
  refuse {x} hx rest := by
    show ∃ e, (c.read >>= _).run _ = _
    rw [Codec.pair, List.append_assoc]
    by_cases h₁ : F x.1
    · obtain ⟨e, he⟩ := hd.refuse (fun h₂ => hx ⟨h₁, h₂⟩) rest
      refine ⟨e, ?_⟩
      rw [run_bind_of_ok (hc.read_write h₁ _)]
      exact run_bind_of_error he
    · obtain ⟨e, he⟩ := hc.refuse h₁ (d.write x.2 ++ rest)
      exact ⟨e, run_bind_of_error he⟩

theorem Lawful.map (hc : c.Lawful F) {toFields : β → α} {ofFields : α → β}
    (h : ∀ y, ofFields (toFields y) = y) :
    (c.map toFields ofFields).Lawful fun y => F (toFields y) where
  isLocal := hc.isLocal.bind fun _ => isLocal_pure _
  read_write {y} hy rest := by
    show (c.read >>= _).run _ = _
    rw [Codec.map, run_bind_of_ok (hc.read_write hy rest), h]
    rfl
  refuse {y} hy rest := by
    obtain ⟨e, he⟩ := hc.refuse hy rest
    exact ⟨e, run_bind_of_error he⟩

theorem run_enumeration [DecidableEq α] {all : List α} (hn : n < 2 ^ 32) :
    (enumeration all).read.run (writeGroups n ++ rest) =
      match all[n]? with
      | some x => .ok (x, rest)
      | none => .error .unknownVariant := by
  show (word.read >>= _).run _ = _
  rw [run_bind_of_ok (run_word hn), UInt32.toNat_ofNat_of_lt' hn]
  cases all[n]? <;> rfl

theorem lawful_enumeration [DecidableEq α] {all : List α} (hall : all.length < 2 ^ 32) :
    (enumeration all).Lawful (· ∈ all) where
  isLocal := by
    refine isLocal_word.bind fun index => ?_
    split
    · exact isLocal_pure _
    · exact isLocal_throw _
  read_write {x} hx rest := by
    have hlt := List.idxOf_lt_length_of_mem hx
    have hget : all[all.idxOf x]? = some x := by
      rw [List.getElem?_eq_getElem hlt, List.getElem_idxOf hlt]
    show (enumeration all).read.run (writeGroups (all.idxOf x) ++ rest) = _
    rw [run_enumeration (Nat.lt_trans hlt hall), hget]
  refuse {x} hx rest := by
    have hlen := List.idxOf_eq_length hx
    have hget : all[all.idxOf x]? = none := by
      rw [hlen, List.getElem?_eq_none (Nat.le_refl _)]
    refine ⟨.unknownVariant, ?_⟩
    show (enumeration all).read.run (writeGroups (all.idxOf x) ++ rest) = _
    rw [run_enumeration (hlen ▸ hall), hget]

end Codec

end RegisterMachine
