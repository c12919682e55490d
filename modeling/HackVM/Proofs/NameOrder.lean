import HackVM.Disk.Discovery

/-! Names in the order of their bytes.

Texts are compared by their characters and files by the bytes of their names. The two orders are the
same, since the first byte of a character tells how many it has, and the bytes behind it carry the
bits of its number from the highest to the lowest (`Text.utf8EncodeChar_append_lt`). -/

namespace HackVM

/-! ## Bytes of a text -/

namespace Text

/-- Characters in order begin bytes in order, whatever comes behind them. -/
theorem utf8EncodeChar_append_lt {c d : Char} (h : c < d) (front rear : Bytes) :
    String.utf8EncodeChar c ++ front < String.utf8EncodeChar d ++ rear := by
  have hlt : c.val.toNat < d.val.toNat := h
  have hbound : d.val.toNat < 0x110000 := by
    rcases d.valid with hd | hd <;> omega
  -- every byte but the first has six bits, and is compared once those above are the same
  have htwo (v : Nat) : v / 4096 = v / 64 / 64 := (Nat.div_div_eq_div_mul v 64 64).symm
  have hthree (v : Nat) : v / 262144 = v / 64 / 64 / 64 := by
    rw [← htwo, Nat.div_div_eq_div_mul]
  fun_cases String.utf8EncodeChar c <;> fun_cases String.utf8EncodeChar d <;>
    simp only [List.cons_append, List.nil_append, List.cons_lt_cons_iff, UInt8.lt_iff_toNat_lt,
      ← UInt8.toNat_inj, UInt8.toNat_ofNat', htwo, hthree] <;>
    omega

theorem flatMap_lt_flatMap {cs ds : List Char} (h : cs < ds) :
    cs.flatMap String.utf8EncodeChar < ds.flatMap String.utf8EncodeChar := by
  have hlex : List.Lex (· < ·) cs ds := h
  induction hlex with
  | nil =>
    rename_i d ds
    cases hbytes : (d :: ds).flatMap String.utf8EncodeChar with
    | nil =>
      rw [List.flatMap_cons, List.append_eq_nil_iff] at hbytes
      exact absurd hbytes.1 String.utf8EncodeChar_ne_nil
    | cons b bytes => exact List.nil_lt_cons b bytes
  | rel hlt =>
    rw [List.flatMap_cons, List.flatMap_cons]
    exact utf8EncodeChar_append_lt hlt _ _
  | cons hlt ih =>
    rw [List.flatMap_cons, List.flatMap_cons]
    exact List.append_left_lt (ih hlt)

theorem encode_lt_encode {a b : String} (h : a < b) : encode a < encode b :=
  flatMap_lt_flatMap h

end Text

/-! ## Sorted names -/

theorem sortNames_perm (names : List String) : (sortNames names).Perm names :=
  List.mergeSort_perm names _

theorem pairwise_sortNames (names : List String) : (sortNames names).Pairwise (· ≤ ·) := by
  have htrans (a b c : String) (hab : decide (a ≤ b) = true) (hbc : decide (b ≤ c) = true) :
      decide (a ≤ c) = true := by
    rw [decide_eq_true_iff] at hab hbc ⊢
    exact String.le_trans hab hbc
  have htotal (a b : String) : (decide (a ≤ b) || decide (b ≤ a)) = true := by
    rw [Bool.or_eq_true, decide_eq_true_iff, decide_eq_true_iff]
    exact String.le_total a b
  exact (List.pairwise_mergeSort htrans htotal names).imp of_decide_eq_true

/-- Names that are there once each come out in the order of their bytes. -/
theorem pairwise_encode_sortNames (h : names.Nodup) :
    (sortNames names).Pairwise fun a b => Text.encode a < Text.encode b := by
  have hnodup : (sortNames names).Nodup := (sortNames_perm names).nodup_iff.mpr h
  refine (pairwise_sortNames names).imp₂ (fun a b hle hne => ?_) hnodup
  exact Text.encode_lt_encode (String.not_le.mp fun hge => hne (String.le_antisymm hle hge))

theorem sortNames_congr (h : List.Perm names names') : sortNames names = sortNames names' := by
  refine List.Perm.eq_of_pairwise (fun a b _ _ => String.le_antisymm) (pairwise_sortNames names)
    (pairwise_sortNames names') ?_
  exact (sortNames_perm names).trans (h.trans (sortNames_perm names').symm)

end HackVM
