import Mathlib

/-!
# Writers that append to a caller's buffer and may refuse

A serialiser written as a run of appends to a buffer the caller owns can refuse half
way, after earlier appends have landed. A `Writer` keeps both facts: how the write
ended, and the buffer as it was left. `w >> w'` writes `w` and then, unless `w`
refused, `w'` onto what `w` left.

`Appends w out` says the writer always succeeds and leaves exactly `out` at the end
of the buffer; `Fails w` that it always refuses, and `Stops w out e` that it refuses with
`e` after it has left `out`. They compose over `>>`, so a field-by-field writer is
described from its fields.
-/

namespace OpenWebId.Lib

variable {ε β : Type}

/-- An append to a `List β` buffer that may raise an `ε`: how it ends, and the
buffer it leaves. -/
def Writer (ε β : Type) : Type := List β → Except ε Unit × List β

namespace Writer

/-- `buffer.extend(out)`. -/
def extend (out : List β) : Writer ε β := fun buffer => (.ok (), buffer ++ out)

/-- Raises, leaving the buffer as it is. -/
def refuse (e : ε) : Writer ε β := fun buffer => (.error e, buffer)

/-- The second write runs on what the first left, unless the first refused. -/
def andThen (w w' : Writer ε β) : Writer ε β := fun buffer =>
  match w buffer with
  | (.ok _, buffer') => w' buffer'
  | (.error e, buffer') => (.error e, buffer')

instance : AndThen (Writer ε β) := ⟨fun w w' => andThen w (w' ())⟩

/-- A write into an empty buffer, as a value: `bytes(buffer)` after the write. -/
def toValue (w : Writer ε β) : Except ε (List β) :=
  match w [] with
  | (.ok _, buffer) => .ok buffer
  | (.error e, _) => .error e

/-- The writer succeeds on every buffer and appends exactly `out`. -/
def Appends (w : Writer ε β) (out : List β) : Prop :=
  ∀ buffer, w buffer = (.ok (), buffer ++ out)

/-- The writer refuses on every buffer. -/
def Fails (w : Writer ε β) : Prop :=
  ∀ buffer, ∃ e buffer', w buffer = (.error e, buffer')

/-- The writer leaves exactly `out` on every buffer, and raises `e`. -/
def Stops (w : Writer ε β) (out : List β) (e : ε) : Prop :=
  ∀ buffer, w buffer = (.error e, buffer ++ out)

theorem appends_extend (out : List β) : Appends (extend out : Writer ε β) out :=
  fun _ => rfl

theorem fails_refuse (e : ε) : Fails (refuse e : Writer ε β) :=
  fun buffer => ⟨e, buffer, rfl⟩

theorem Appends.andThen {w w' : Writer ε β} {out out' : List β}
    (h : Appends w out) (h' : Appends w' out') : Appends (w >> w') (out ++ out') := by
  intro buffer
  show Writer.andThen w w' buffer = _
  rw [Writer.andThen, h buffer]
  simp only
  rw [h' (buffer ++ out), List.append_assoc]

theorem Fails.andThen {w w' : Writer ε β} (h : Fails w) : Fails (w >> w') := by
  intro buffer
  obtain ⟨e, buffer', hw⟩ := h buffer
  exact ⟨e, buffer', by show Writer.andThen w w' buffer = _; rw [Writer.andThen, hw]⟩

theorem Appends.andThen_fails {w w' : Writer ε β} {out : List β}
    (h : Appends w out) (h' : Fails w') : Fails (w >> w') := by
  intro buffer
  obtain ⟨e, buffer', hw'⟩ := h' (buffer ++ out)
  exact ⟨e, buffer', by
    show Writer.andThen w w' buffer = _
    rw [Writer.andThen, h buffer]
    exact hw'⟩

theorem Appends.toValue {w : Writer ε β} {out : List β} (h : Appends w out) :
    w.toValue = .ok out := by
  rw [Writer.toValue, h []]
  rfl

theorem Fails.toValue {w : Writer ε β} (h : Fails w) : ∃ e, w.toValue = .error e := by
  obtain ⟨e, buffer', hw⟩ := h []
  exact ⟨e, by rw [Writer.toValue, hw]⟩

theorem Fails.toValue_ne_ok {w : Writer ε β} {out : List β} (h : Fails w) :
    w.toValue ≠ .ok out := by
  intro hok
  obtain ⟨e, herror⟩ := h.toValue
  rw [herror] at hok
  cases hok

theorem stops_refuse (e : ε) : Stops (refuse e : Writer ε β) [] e := by
  intro buffer
  rw [List.append_nil]
  rfl

theorem Stops.andThen {w w' : Writer ε β} {out : List β} {e : ε} (h : Stops w out e) :
    Stops (w >> w') out e := by
  intro buffer
  show Writer.andThen w w' buffer = _
  rw [Writer.andThen, h buffer]

/-- What the first write appended stays where the second stops. -/
theorem Appends.andThen_stops {w w' : Writer ε β} {out out' : List β} {e : ε}
    (h : Appends w out) (h' : Stops w' out' e) : Stops (w >> w') (out ++ out') e := by
  intro buffer
  show Writer.andThen w w' buffer = _
  rw [Writer.andThen, h buffer]
  simp only
  rw [h' (buffer ++ out), List.append_assoc]

end Writer

end OpenWebId.Lib
