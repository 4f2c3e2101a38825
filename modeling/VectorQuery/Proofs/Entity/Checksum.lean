/-
# What a checksum binds

A zero byte closes each part that a checksum covers, but keys may have zero characters and
embeddings have zero bytes in plenty.  So the bytes do not say by themselves where a part ends:
entities with different parts can have the same bytes.  They say it together with how many zero
characters the parts of the key have and how many components the dense embedding has.
-/
import VectorQuery.Proofs.Bytes
import VectorQuery.Store.Snapshot

namespace VectorQuery

/-- If the digests of two messages are the same then so are the messages. -/
def Sha256.NoCollision (x y : Bytes) : Prop := digest x = digest y → x = y

namespace Bytes

/-- Byte strings with equally many zeros before a zero end at the same place. -/
theorem append_zero_inj {a b c d : Bytes} (hzeros : a.count 0 = b.count 0)
    (h : a ++ 0 :: c = b ++ 0 :: d) : a = b ∧ c = d := by
  induction a generalizing b with
  | nil =>
      cases b with
      | nil => exact ⟨rfl, (List.cons.inj h).2⟩
      | cons y b =>
          obtain ⟨rfl, -⟩ := List.cons.inj h
          rw [List.count_cons_self] at hzeros
          exact absurd hzeros (Nat.succ_ne_zero _).symm
  | cons x a ih =>
      cases b with
      | nil =>
          obtain ⟨rfl, -⟩ := List.cons.inj h
          rw [List.count_cons_self] at hzeros
          exact absurd hzeros (Nat.succ_ne_zero _)
      | cons y b =>
          obtain ⟨rfl, htail⟩ := List.cons.inj h
          rw [List.count_cons, List.count_cons, Nat.add_right_cancel_iff] at hzeros
          obtain ⟨rfl, hrest⟩ := ih hzeros htail
          exact ⟨rfl, hrest⟩

theorem length_flatMap_ofSingle (v : List Single) : (v.flatMap ofSingle).length = 4 * v.length := by
  induction v with
  | nil => rfl
  | cons x v ih =>
      rw [List.flatMap_cons, List.length_append, ih, length_ofSingle, List.length_cons]
      omega

example : ofSingle 1 = [0, 0, 0x80, 0x3f] := by
  decide +kernel

theorem flatMap_ofSingle_injective {v w : List Single}
    (h : v.flatMap ofSingle = w.flatMap ofSingle) : v = w := by
  have hlength : v.length = w.length := by
    have hbytes := congrArg List.length h
    rw [length_flatMap_ofSingle, length_flatMap_ofSingle] at hbytes
    omega
  induction v generalizing w with
  | nil => exact (List.length_eq_zero_iff.1 hlength.symm).symm
  | cons x v ih =>
      obtain ⟨y, w, rfl⟩ := List.exists_cons_of_length_eq_add_one hlength.symm
      obtain ⟨hhead, htail⟩ :=
        List.append_inj h ((length_ofSingle x).trans (length_ofSingle y).symm)
      rw [ofSingle_injective hhead, ih htail (Nat.succ.inj hlength)]

end Bytes

namespace Entity

variable {α : Type} {a b : Entity α}

/-- Two entities have the same key and the same embeddings. -/
def SameContent (a b : Entity α) : Prop :=
  a.key = b.key ∧ a.dense = b.dense ∧ a.symbolic = b.symbolic

/-- The parts that checksums of two entities cover end at the same places. -/
structure SameShape (a b : Entity α) : Prop where
  entityType : a.entityType.toList.count '\x00' = b.entityType.toList.count '\x00'
  id : a.id.toList.count '\x00' = b.id.toList.count '\x00'
  dense : a.dense.length = b.dense.length

theorem SameContent.sameShape (h : SameContent a b) : SameShape a b := by
  obtain ⟨hkey, hdense, -⟩ := h
  have htype : a.entityType = b.entityType := congrArg EntityKey.entityType hkey
  have hid : a.id = b.id := congrArg EntityKey.id hkey
  exact ⟨by rw [htype], by rw [hid], by rw [hdense]⟩

theorem SameContent.signedBytes (h : SameContent a b) : a.signedBytes = b.signedBytes := by
  obtain ⟨hkey, hdense, hsymbolic⟩ := h
  have htype : a.entityType = b.entityType := congrArg EntityKey.entityType hkey
  have hid : a.id = b.id := congrArg EntityKey.id hkey
  rw [Entity.signedBytes, Entity.signedBytes, htype, hid, hdense, hsymbolic]

/-- The bytes that a checksum covers, read from the front. -/
theorem sameContent_of_signedBytes (h : a.signedBytes = b.signedBytes) (hshape : SameShape a b) :
    SameContent a b := by
  simp only [Entity.signedBytes, List.append_assoc, List.cons_append] at h
  obtain ⟨htype, h⟩ := Bytes.append_zero_inj
    (by rw [Bytes.count_zero_ofText, Bytes.count_zero_ofText, hshape.entityType]) h
  obtain ⟨hid, h⟩ := Bytes.append_zero_inj
    (by rw [Bytes.count_zero_ofText, Bytes.count_zero_ofText, hshape.id]) h
  obtain ⟨hdense, h⟩ := List.append_inj h
    (by rw [Bytes.length_flatMap_ofSingle, Bytes.length_flatMap_ofSingle, hshape.dense])
  have hkey : a.key = b.key := by
    rw [key, key, Bytes.ofText_injective htype, Bytes.ofText_injective hid]
  exact ⟨hkey, Bytes.flatMap_ofSingle_injective hdense,
    Bytes.flatMap_ofSingle_injective (List.cons.inj h).2⟩

/-- **Checksums.** Without a collision of digests, the checksum of an entity binds its key and both
its embeddings as far as their parts end at the same places, and no further. -/
theorem checksum_eq_and_sameShape_iff (h : Sha256.NoCollision a.signedBytes b.signedBytes) :
    a.checksum = b.checksum ∧ SameShape a b ↔ SameContent a b :=
  ⟨fun ⟨hsum, hshape⟩ => sameContent_of_signedBytes (h hsum) hshape,
    fun hcontent => ⟨congrArg Sha256.digest hcontent.signedBytes, hcontent.sameShape⟩⟩

/-- An entity with a component in each space. -/
def cacheFeature : Entity Double := ⟨"feature", "cache", "cache", [1], [0], .empty⟩

theorem checksum_of_opposite :
    Sha256.NoCollision cacheFeature.signedBytes { cacheFeature with dense := [-1] }.signedBytes ∧
      ¬ (cacheFeature.checksum = { cacheFeature with dense := [-1] }.checksum ∧
        SameShape cacheFeature { cacheFeature with dense := [-1] }) := by
  have hdigest : cacheFeature.checksum ≠ { cacheFeature with dense := [-1] }.checksum := by
    decide +kernel
  have hcollision : Sha256.NoCollision cacheFeature.signedBytes
      { cacheFeature with dense := [-1] }.signedBytes := fun heq => absurd heq hdigest
  refine ⟨hcollision, fun hsame => ?_⟩
  obtain ⟨-, hdense, -⟩ := (checksum_eq_and_sameShape_iff hcollision).1 hsame
  exact absurd hdense (by decide)

/-- The component moves from one space to the other, past the zero byte between them, which is the
same as the bytes of the component. -/
theorem checksum_of_moved_component :
    (Snapshot.build [cacheFeature] [] {} 1 ⟨0, 0⟩).isOk = true ∧
      (Snapshot.build [{ cacheFeature with dense := [1, 0], symbolic := [] }] [] {} 1 ⟨0, 0⟩).isOk =
        true ∧
      cacheFeature.signedBytes =
        { cacheFeature with dense := [1, 0], symbolic := [] }.signedBytes ∧
      cacheFeature.checksum = { cacheFeature with dense := [1, 0], symbolic := [] }.checksum ∧
      cacheFeature.dense ≠ { cacheFeature with dense := [1, 0], symbolic := [] }.dense := by
  have hbytes : cacheFeature.signedBytes =
      { cacheFeature with dense := [1, 0], symbolic := [] }.signedBytes := by decide +kernel
  exact ⟨by decide +kernel, by decide +kernel, hbytes, congrArg Sha256.digest hbytes, by decide⟩

-- the component that moves
example : Bytes.ofSingle 0 = [0, 0, 0, 0] := by
  decide +kernel

end Entity

end VectorQuery
