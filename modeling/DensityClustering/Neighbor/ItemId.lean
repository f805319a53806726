/-!
Names of points and features: byte strings, ordered byte by byte.
-/

namespace DensityClustering

/-- The name of a point or feature. -/
structure ItemId where
  bytes : List UInt8
  deriving DecidableEq, Repr

namespace ItemId

def ofText (s : String) : ItemId := ⟨s.toUTF8.data.toList⟩

instance : Ord ItemId := ⟨compareOn bytes⟩

instance : Std.TransOrd ItemId := inferInstanceAs (Std.TransCmp (compareOn bytes))

instance : Std.LawfulEqOrd ItemId where
  eq_of_compare {a b} h := by
    obtain ⟨a⟩ := a
    obtain ⟨b⟩ := b
    cases Std.LawfulEqOrd.eq_of_compare (α := List UInt8) h
    rfl

/-- The text that the bytes spell, if they spell one. -/
def text? (id : ItemId) : Option String := String.fromUTF8? ⟨id.bytes.toArray⟩

def hexByte (b : UInt8) : String :=
  let digit := fun n : Nat => (Nat.digitChar n).toString
  digit (b.toNat / 16) ++ digit (b.toNat % 16)

def hex (id : ItemId) : String := String.join (id.bytes.map hexByte)

/-- The text of an id: its own spelling, or else its digits. -/
def display (id : ItemId) : String :=
  match id.text? with
  | some s => s
  | none => "0x" ++ id.hex

end ItemId

end DensityClustering
