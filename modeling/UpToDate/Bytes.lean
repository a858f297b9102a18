namespace UpToDate

abbrev Bytes := List UInt8

namespace Bytes

/-- The `width` low bytes of `n`, least significant first. -/
def ofNat : (width : Nat) → (n : Nat) → Bytes
  | 0, _ => []
  | w + 1, n => UInt8.ofNat n :: ofNat w (n / 256)

/-- The number a byte string writes, least significant byte first. -/
def toNat : Bytes → Nat
  | [] => 0
  | b :: rest => b.toNat + 256 * toNat rest

@[simp] theorem length_ofNat (w n : Nat) : (ofNat w n).length = w := by
  induction w generalizing n with
  | zero => rfl
  | succ w ih => simp [ofNat, ih]

theorem toNat_ofNat {w n : Nat} (h : n < Nat.pow 256 w) : toNat (ofNat w n) = n := by
  induction w generalizing n with
  | zero => simp_all [ofNat, toNat, Nat.pow]
  | succ w ih =>
    have hn : n / 256 < Nat.pow 256 w :=
      Nat.div_lt_of_lt_mul (by simpa [Nat.pow, Nat.mul_comm] using h)
    simp only [ofNat, toNat, ih hn, UInt8.toNat_ofNat']
    omega

def ofText (s : String) : Bytes := s.toByteArray.data.toList

def toText? (b : Bytes) : Option String := String.fromUTF8? ⟨b.toArray⟩

@[simp] theorem toText?_ofText (s : String) : toText? (ofText s) = some s := by
  simp [toText?, ofText, String.fromUTF8?, s.isValidUTF8, String.fromUTF8]

def hexDigit (n : Nat) : Char := Char.ofNat (if n < 10 then 48 + n else 87 + n)

def hex (b : Bytes) : String :=
  String.ofList (b.flatMap fun x ↦ [hexDigit (x.toNat / 16), hexDigit (x.toNat % 16)])

end Bytes

end UpToDate
