import Reassembly.SeqNum

/-! Numbers as bytes, the most significant first. -/
namespace Reassembly.BigEndian

def toNat (bs : Bytes) : Nat := bs.foldl (fun n b => n*256+b.toNat) 0

def ofNat : (width : Nat) → Nat → Bytes
  | 0, _ => []
  | w+1, n => ofNat w (n/256) ++ [UInt8.ofNat n]

/-- The number in the `width` bytes from `offset` on. -/
def field (bs : Bytes) (offset width : Nat) : Nat := toNat ((bs.drop offset).take width)

@[simp] theorem length_ofNat (w n : Nat) : (ofNat w n).length = w := by
  induction w generalizing n with
  | zero => rfl
  | succ w ih => simp [ofNat,ih]

@[simp] theorem toNat_nil : toNat [] = 0 := rfl

theorem toNat_append_singleton (bs : Bytes) (b : UInt8) :
    toNat (bs++[b]) = toNat bs*256+b.toNat := by simp [toNat]

theorem toNat_ofNat (w n : Nat) : toNat (ofNat w n) = n%Nat.pow 256 w := by
  induction w generalizing n with
  | zero => simp [ofNat,Nat.mod_one]
  | succ w ih =>
    change _ = n%(Nat.pow 256 w*256)
    rw [ofNat,toNat_append_singleton,ih,Nat.mul_comm (Nat.pow 256 w),Nat.mod_mul]
    simp only [UInt8.toNat_ofNat']
    omega

end Reassembly.BigEndian
