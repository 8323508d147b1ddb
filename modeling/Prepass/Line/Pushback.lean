/-!
# Streams with one item put back

A stream gives its items one by one, and a reader may put one item back to read it again next.
-/

namespace Prepass

/-- A stream with room for one item put back. -/
structure Pushback (α : Type) where
  items : List α
  held : Option α := none
  deriving DecidableEq, Repr

namespace Pushback

variable {α : Type}

/-- The number of items still to come. -/
def size (s : Pushback α) : Nat :=
  s.items.length + (if s.held.isSome then 1 else 0)

/-- The next item and the stream after it. -/
def next? (s : Pushback α) : Option (α × Pushback α) :=
  match s.held with
  | some a => some (a, { s with held := none })
  | none =>
    match s.items with
    | [] => none
    | a :: rest => some (a, { items := rest })

/-- The stream with an item put back, or nothing when the room is taken. Putting back no item changes nothing. -/
def putBack? (s : Pushback α) (item : Option α) : Option (Pushback α) :=
  match s.held with
  | some _ => none
  | none => some { s with held := item }

/-- Taking an item leaves one less. -/
theorem size_of_next? {s t : Pushback α} {a : α} (h : s.next? = some (a, t)) : t.size + 1 = s.size := by
  unfold next? at h
  split at h
  · rename_i b hb
    cases h
    simp [size, hb]
  · rename_i hb
    split at h
    · nomatch h
    · rename_i b rest hr
      cases h
      simp [size, hb, hr]

theorem size_lt_of_next? {s t : Pushback α} {a : α} (h : s.next? = some (a, t)) : t.size < s.size :=
  Nat.lt_of_succ_le (Nat.le_of_eq (size_of_next? h))

/-- An item put back is one more to come. -/
theorem size_of_putBack? {s t : Pushback α} {a : α} (h : s.putBack? (some a) = some t) : t.size = s.size + 1 := by
  unfold putBack? at h
  split at h
  · nomatch h
  · rename_i hb
    cases h
    simp [size, hb]

end Pushback

end Prepass
