/-
Ckbadger.Lib.Codec — the contract of a value serializer, and serializers that
meet it.

Serialized rows are opaque to the programs that store them; what they rely on
is that reading back a written row gives the value that was written. `Codec`
states that contract. `PrefixCodec` builds instances of it: each value's bytes
say where they end, so codecs of parts concatenate to codecs of wholes.
-/
import Ckbadger.Lib.Bytes

namespace Ckbadger.Lib

/-- A serializer for `α` that reads back what it writes. Reading arbitrary bytes may fail. -/
class Codec (α : Type) where
  serialize : α → Bytes
  deserialize : Bytes → Except String α
  deserialize_serialize : ∀ a, deserialize (serialize a) = .ok a

attribute [simp] Codec.deserialize_serialize

theorem Codec.serialize_injective {α : Type} [Codec α] {a b : α}
    (h : Codec.serialize a = Codec.serialize b) : a = b := by
  have hread := congrArg (Codec.deserialize (α := α)) h
  simpa using hread

/-- A serializer whose output can be followed by other bytes. -/
class PrefixCodec (α : Type) where
  put : α → Bytes
  get : Bytes → Option (α × Bytes)
  get_put : ∀ a rest, get (put a ++ rest) = some (a, rest)

namespace PrefixCodec

attribute [simp] get_put

variable {α β : Type} [PrefixCodec α] [PrefixCodec β]

/-- A prefix codec used for a whole row: the value must use up every byte. -/
instance : Codec α where
  serialize := put
  deserialize bs :=
    match get bs with
    | some (a, []) => .ok a
    | some (_, _ :: _) => .error "trailing bytes"
    | none => .error "unexpected end of input"
  deserialize_serialize a := by
    have h := get_put a []
    rw [List.append_nil] at h
    rw [h]

/-- A codec for a type that embeds in one with a codec. -/
@[reducible] def ofRetract {γ : Type} (f : γ → α) (g : α → γ) (h : ∀ c, g (f c) = c) :
    PrefixCodec γ where
  put c := put (f c)
  get bs := (get bs).map fun p => (g p.1, p.2)
  get_put c rest := by simp [h]

/-- The value that carries no information. -/
instance : PrefixCodec Unit := ⟨fun _ => [], fun bs => some ((), bs), fun _ _ => rfl⟩

instance : PrefixCodec UInt8 where
  put b := [b]
  get
    | [] => none
    | b :: rest => some (b, rest)
  get_put _ _ := rfl

/-- Two values, one after the other. -/
instance : PrefixCodec (α × β) where
  put p := put p.1 ++ put p.2
  get bs := do
    let (a, rest) ← get bs
    let (b, rest) ← get rest
    return ((a, b), rest)
  get_put p rest := by simp [List.append_assoc]

/-- One of two values, told apart by a tag byte. -/
instance : PrefixCodec (α ⊕ β) where
  put
    | .inl a => 0 :: put a
    | .inr b => 1 :: put b
  get
    | 0 :: bs => (get bs).map fun p => (.inl p.1, p.2)
    | 1 :: bs => (get bs).map fun p => (.inr p.1, p.2)
    | _ => none
  get_put x rest := by cases x <;> simp

/-- The number of `1` bytes before the first `0`. -/
def getUnary : Bytes → Option (Nat × Bytes)
  | [] => none
  | 0 :: rest => some (0, rest)
  | _ :: rest => (getUnary rest).map fun p => (p.1 + 1, p.2)

/-- A natural number, in unary. -/
instance : PrefixCodec Nat where
  put n := List.replicate n 1 ++ [0]
  get := getUnary
  get_put n rest := by
    induction n with
    | zero => rfl
    | succ n ih => simpa [List.replicate_succ, getUnary] using ih

/-- An integer: its sign and its magnitude. -/
instance : PrefixCodec Int :=
  ofRetract (α := Nat ⊕ Nat)
    (fun | .ofNat n => .inl n | .negSucc n => .inr n)
    (fun | .inl n => .ofNat n | .inr n => .negSucc n)
    (fun i => by cases i <;> rfl)

instance : PrefixCodec (Option α) :=
  ofRetract (α := Unit ⊕ α)
    (fun | none => .inl () | some a => .inr a)
    (fun | .inl () => none | .inr a => some a)
    (fun a => by cases a <;> rfl)

/-- Reads `n` values in a row. -/
def getMany : Nat → Bytes → Option (List α × Bytes)
  | 0, bs => some ([], bs)
  | n + 1, bs => do
      let (a, rest) ← get bs
      let (as, rest) ← getMany n rest
      return (a :: as, rest)

/-- A list: its length, then its elements. -/
instance : PrefixCodec (List α) where
  put as := put as.length ++ as.flatMap put
  get bs := do
    let (n, rest) ← get bs
    getMany n rest
  get_put as rest := by
    have hmany : getMany as.length (as.flatMap put ++ rest) = some (as, rest) := by
      induction as with
      | nil => rfl
      | cons a as ih => simp [getMany, ih]
    simp [List.append_assoc, hmany]

/-- A string, character by character. -/
instance : PrefixCodec String :=
  ofRetract (fun s => s.toList.map Char.toNat) (fun ns => String.ofList (ns.map Char.ofNat))
    (fun s => by simp [List.map_map, Function.comp_def])

end PrefixCodec

end Ckbadger.Lib
