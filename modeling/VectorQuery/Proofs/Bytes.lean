/-
# Byte strings

Numbers and texts are read back from their bytes, and numbers of one width have different bytes.  In
the bytes of a text only the character zero gives a zero byte.
-/
import VectorQuery.Bytes.Basic

namespace VectorQuery.Bytes

/-! ## Numbers -/

theorem toNat_ofNat_of_lt {width n : Nat} (h : n < 256 ^ width) : toNat (ofNat width n) = n :=
  (toNat_ofNat width n).trans (Nat.mod_eq_of_lt h)

theorem toNat_lt (bs : Bytes) : toNat bs < 256 ^ bs.length := by
  induction bs with
  | nil => exact Nat.one_pos
  | cons b bs ih =>
      have hb := b.toNat_lt
      rw [toNat, List.length_cons, Nat.pow_succ]
      omega

@[simp] theorem length_ofSingle (x : Single) : (ofSingle x).length = 4 := length_ofNat ..

@[simp] theorem length_ofDouble (x : Double) : (ofDouble x).length = 8 := length_ofNat ..

theorem toNat_ofSingle (x : Single) : toNat (ofSingle x) = x.bits.toNat :=
  toNat_ofNat_of_lt x.bits.toNat_lt

theorem ofSingle_injective {x y : Single} (h : ofSingle x = ofSingle y) : x = y := by
  have hbits := congrArg toNat h
  rw [toNat_ofSingle, toNat_ofSingle] at hbits
  cases x
  cases y
  exact congrArg Single.mk (UInt32.toNat_inj.1 hbits)

/-! ## Texts -/

theorem toList_loop (bs : ByteArray) (i : Nat) (done : List UInt8) :
    ByteArray.toList.loop bs i done = done.reverse ++ bs.data.toList.drop i := by
  induction i, done using ByteArray.toList.loop.induct bs with
  | case1 i done hlt ih =>
      have hi : i < bs.data.toList.length := hlt
      have hget : bs.get! i = bs.data.toList[i] := getElem!_pos bs.data i hlt
      rw [ByteArray.toList.loop, if_pos hlt, ih, List.drop_eq_getElem_cons hi, hget,
        List.reverse_cons, List.append_assoc, List.singleton_append]
  | case2 i done hge =>
      rw [ByteArray.toList.loop, if_neg hge, List.drop_eq_nil_of_le (Nat.le_of_not_lt hge),
        List.append_nil]

theorem toList_eq (bs : ByteArray) : bs.toList = bs.data.toList := toList_loop bs 0 []

theorem ofText_eq (s : String) : ofText s = s.toByteArray.data.toList := toList_eq _

/-- A text is read back from its bytes. -/
theorem text?_ofText (s : String) : text? (ofText s) = some s := by
  have hbytes : (⟨(ofText s).toArray⟩ : ByteArray) = s.toByteArray := by
    rw [ofText_eq, Array.toArray_toList]
  rw [text?, hbytes, String.fromUTF8?, dif_pos s.isValidUTF8]
  rfl

theorem ofText_injective {s t : String} (h : ofText s = ofText t) : s = t := by
  have htext := text?_ofText s
  rw [h, text?_ofText] at htext
  exact (Option.some.inj htext).symm

theorem ofText_eq_flatMap (s : String) : ofText s = s.toList.flatMap String.utf8EncodeChar := by
  rw [ofText_eq, ← String.utf8Encode_toList, List.utf8Encode, List.data_toByteArray]

@[simp] theorem ofText_empty : ofText "" = [] := ofText_eq_flatMap ""

theorem ofText_append (s t : String) : ofText (s ++ t) = ofText s ++ ofText t := by
  rw [ofText_eq_flatMap, String.toList_append, List.flatMap_append, ← ofText_eq_flatMap,
    ← ofText_eq_flatMap]

theorem ofNat_ne_zero {n : Nat} (hpos : 0 < n) (hlt : n < 256) : UInt8.ofNat n ≠ 0 := by
  intro h
  have hn := congrArg UInt8.toNat h
  rw [UInt8.toNat_ofNat_of_lt' hlt] at hn
  exact absurd hn (Nat.ne_of_gt hpos)

/-- Every byte of a character above zero is above zero. -/
theorem zero_not_mem_utf8EncodeChar {c : Char} (h : c ≠ '\x00') :
    (0 : UInt8) ∉ String.utf8EncodeChar c := by
  have hpos : 0 < c.val.toNat := Nat.pos_of_ne_zero fun hzero =>
    h (Char.ext (UInt32.toNat_inj.1 hzero))
  rw [String.utf8EncodeChar]
  generalize c.val.toNat = v at hpos
  intro hmem
  split at hmem
  · rw [List.mem_singleton] at hmem
    exact ofNat_ne_zero hpos (by omega) hmem.symm
  · -- the bytes of a longer character have their highest bit set
    have hne : ∀ {n base : Nat}, 0 < base → n + base < 256 → (0 : UInt8) ≠ UInt8.ofNat (n + base) :=
      fun hbase hlt => (ofNat_ne_zero (Nat.add_pos_right _ hbase) hlt).symm
    split at hmem
    · simp only [List.mem_cons, List.not_mem_nil, or_false] at hmem
      rcases hmem with hmem | hmem <;> exact hne (by decide) (by omega) hmem
    · split at hmem
      · simp only [List.mem_cons, List.not_mem_nil, or_false] at hmem
        rcases hmem with hmem | hmem | hmem <;> exact hne (by decide) (by omega) hmem
      · simp only [List.mem_cons, List.not_mem_nil, or_false] at hmem
        rcases hmem with hmem | hmem | hmem | hmem <;> exact hne (by decide) (by omega) hmem

/-- A text has as many zero bytes as zero characters. -/
theorem count_zero_ofText (s : String) : (ofText s).count 0 = s.toList.count '\x00' := by
  rw [ofText_eq_flatMap]
  induction s.toList with
  | nil => rfl
  | cons c cs ih =>
      rw [List.flatMap_cons, List.count_append, ih, List.count_cons, Nat.add_comm]
      by_cases hc : c = '\x00'
      · rw [hc]
        rfl
      · rw [List.count_eq_zero.2 (zero_not_mem_utf8EncodeChar hc), if_neg (by simpa using hc)]

end VectorQuery.Bytes
