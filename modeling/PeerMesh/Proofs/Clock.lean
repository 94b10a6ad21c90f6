import Mathlib.Algebra.Group.Nat.Defs
import PeerMesh.Clock
import PeerMesh.Proofs.Fields

namespace PeerMesh.VersionVector

variable (c : VersionVector)

@[simp]
theorem owner_commit (t : Token) : (c.commit t).owner = c.owner :=
  rfl

theorem get_commit (t : Token) (p : PeerId) :
    (c.commit t).get p = if p = t.origin then max t.counter (c.get p) else c.get p := by
  rw [commit, observe, get, get, Dict.get?_insert]
  by_cases hp : p = t.origin
  · subst hp
    rw [if_pos rfl, if_pos rfl]
    rfl
  · have hid : p.id ≠ t.origin.id := fun he => hp (congrArg PeerId.mk he)
    rw [if_neg hp, if_neg hid]
    rfl

/-- Unless the counters are exhausted, the own entry becomes the counter of the token. -/
theorem get_commit_peek (h : (c.get c.owner).toNat + 1 < 2 ^ 64) :
    ((c.commit c.peek).get c.owner).toNat = (c.get c.owner).toNat + 1 := by
  have hadd : (c.get c.owner + 1).toNat = (c.get c.owner).toNat + 1 := by
    rw [UInt64.toNat_add]
    exact Nat.mod_eq_of_lt h
  have hle : c.get c.owner ≤ c.get c.owner + 1 := by
    rw [UInt64.le_iff_toNat_le, hadd]
    exact Nat.le_succ _
  have hmax : max (c.get c.owner + 1) (c.get c.owner) = c.get c.owner + 1 := by
    have hdef : max (c.get c.owner + 1) (c.get c.owner) =
        if c.get c.owner + 1 ≤ c.get c.owner then c.get c.owner else c.get c.owner + 1 := rfl
    rw [hdef]
    split
    · next hge => exact UInt64.le_antisymm hle hge
    · rfl
  have hget : (c.commit c.peek).get c.owner = max (c.get c.owner + 1) (c.get c.owner) :=
    (get_commit c c.peek c.owner).trans (if_pos rfl)
  rw [hget, hmax, hadd]

end PeerMesh.VersionVector
