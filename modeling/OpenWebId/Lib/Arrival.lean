import OpenWebId.Lib.Framing

/-!
# The loop over a source still arriving

`whileData` walks a buffer that is all there. Here the buffer arrives in pieces: each
piece is put behind what the loop left, and the loop runs again (`whileArriving`).

`Keeps read` is what this needs of a turn beside `Advances`: a frame taken from the front
of some bytes is the one taken when more bytes follow. Then how the bytes were cut is not
seen (`whileArriving_flatten`), and of a run of frames that has arrived in part the loop
has visited the frames that are all there (`whileData_part`).
-/

namespace OpenWebId.Lib

universe u v w

variable {α : Type u} {β : Type v} {ε : Type w} {read : List α → Except ε (Option (β × Nat))}

/-- What a turn takes it takes whatever follows. -/
def Keeps (read : List α → Except ε (Option (β × Nat))) : Prop :=
  ∀ data value n, data ≠ [] → read data = .ok (some (value, n)) →
    ∀ rest, read (data ++ rest) = .ok (some (value, n))

/-- The loop over what has arrived: the bytes left, and the pieces still to come. -/
def whileArriving (read : List α → Except ε (Option (β × Nat))) :
    List α → List (List α) → Except ε (Option (List (List α × β) × List α))
  | left, [] => .ok (some ([], left))
  | left, chunk :: chunks =>
    match whileData read (left ++ chunk).length (left ++ chunk) with
    | .error e => .error e
    | .ok none => .ok none
    | .ok (some (visits, left)) =>
      match whileArriving read left chunks with
      | .error e => .error e
      | .ok none => .ok none
      | .ok (some (visits', left)) => .ok (some (visits ++ visits', left))

/-- Nothing can be taken from the front. -/
def Stopped (read : List α → Except ε (Option (β × Nat))) (data : List α) : Prop :=
  data = [] ∨ read data = .ok none

/-- The inversion of a loop that ended: it had nothing to walk, its turn stopped it, or its
turn took a piece and it went on behind the piece. -/
theorem whileData_ended {turns : Nat} {data : List α} {visits : List (List α × β)} {left : List α}
    (h : whileData read turns data = .ok (some (visits, left))) :
    (Stopped read data ∧ visits = [] ∧ left = data) ∨
      ∃ before value n rest, turns = before + 1 ∧ data ≠ [] ∧
        read data = .ok (some (value, n)) ∧
        whileData read before (data.drop n) = .ok (some (rest, left)) ∧
        visits = (data.take n, value) :: rest := by
  cases data with
  | nil =>
    cases turns <;> (cases h; exact Or.inl ⟨Or.inl rfl, rfl, rfl⟩)
  | cons a data =>
    cases turns with
    | zero => cases h
    | succ before =>
      rw [whileData] at h
      split at h
      next => cases h
      next hstop =>
        cases h
        exact Or.inl ⟨Or.inr hstop, rfl, rfl⟩
      next value n hread =>
        split at h
        next => cases h
        next => cases h
        next rest left' hrest =>
          cases h
          exact Or.inr ⟨before, value, n, rest, rfl, List.cons_ne_nil a data, hread, hrest, rfl⟩

/-- A loop whose turn stops it ends there. -/
theorem whileData_stopped {data : List α} (h : Stopped read data) {turns : Nat}
    (hturns : data.length ≤ turns) : whileData read turns data = .ok (some ([], data)) := by
  cases data with
  | nil => cases turns <;> rfl
  | cons a data =>
    obtain ⟨before, rfl⟩ : ∃ n, turns = n + 1 := ⟨turns - 1, by
      rw [List.length_cons] at hturns
      omega⟩
    have hstop : read (a :: data) = .ok none := h.resolve_left (List.cons_ne_nil a data)
    rw [whileData, hstop]

/-- A loop whose turn takes a piece goes on behind it. -/
theorem whileData_took {data : List α} (hdata : data ≠ []) {value : β} {n : Nat}
    (hread : read data = .ok (some (value, n))) {turns : Nat} {visits : List (List α × β)}
    {left : List α} (hrest : whileData read turns (data.drop n) = .ok (some (visits, left))) :
    whileData read (turns + 1) data = .ok (some ((data.take n, value) :: visits, left)) := by
  obtain ⟨a, tail, rfl⟩ := List.exists_cons_of_ne_nil hdata
  rw [whileData, hread]
  simp only [hrest]

/-- With more turns the loop ends where it ended. -/
theorem whileData_mono {turns : Nat} {data : List α} {visits : List (List α × β)} {left : List α}
    (h : whileData read turns data = .ok (some (visits, left))) {more : Nat}
    (hmore : turns ≤ more) : whileData read more data = .ok (some (visits, left)) := by
  induction turns generalizing data visits more with
  | zero =>
    cases data with
    | nil =>
      cases h
      cases more <;> rfl
    | cons a data => cases h
  | succ turns ih =>
    obtain ⟨more, rfl⟩ : ∃ n, more = n + 1 := ⟨more - 1, by omega⟩
    rcases whileData_ended h with ⟨hstop, rfl, rfl⟩ |
      ⟨before, value, n, rest, hturns, hdata, hread, hrest, rfl⟩
    · rcases hstop with rfl | hstop
      · rfl
      · cases left with
        | nil => rfl
        | cons a data => rw [whileData, hstop]
    · obtain rfl : turns = before := Nat.succ.inj hturns
      exact whileData_took hdata hread (ih hrest (Nat.le_of_succ_le_succ hmore))

/-- The loop leaves what its turn stops at. -/
theorem whileData_left {turns : Nat} {data : List α} {visits : List (List α × β)} {left : List α}
    (h : whileData read turns data = .ok (some (visits, left))) : Stopped read left := by
  induction turns generalizing data visits with
  | zero =>
    rcases whileData_ended h with ⟨hstop, -, rfl⟩ | ⟨before, _, _, _, hturns, -⟩
    · exact hstop
    · omega
  | succ turns ih =>
    rcases whileData_ended h with ⟨hstop, -, rfl⟩ | ⟨before, _, _, _, hturns, -, -, hrest, -⟩
    · exact hstop
    · obtain rfl : turns = before := Nat.succ.inj hturns
      exact ih hrest

/-- **A walk over a buffer is a walk over its front and then over what that left.** -/
theorem whileData_append (hkeeps : Keeps read) (hadvances : Advances read) {x y : List α}
    {turns more : Nat} {visits visits' : List (List α × β)} {left left' : List α}
    (hx : whileData read turns x = .ok (some (visits, left)))
    (hy : whileData read more (left ++ y) = .ok (some (visits', left'))) :
    whileData read (turns + more) (x ++ y) = .ok (some (visits ++ visits', left')) := by
  induction turns generalizing x visits with
  | zero =>
    rcases whileData_ended hx with ⟨-, rfl, rfl⟩ | ⟨before, _, _, _, hturns, -⟩
    · rw [Nat.zero_add]
      exact hy
    · omega
  | succ turns ih =>
    rcases whileData_ended hx with ⟨-, rfl, rfl⟩ |
      ⟨before, value, n, rest, hturns, hdata, hread, hrest, rfl⟩
    · exact whileData_mono hy (Nat.le_add_left ..)
    · obtain rfl : turns = before := Nat.succ.inj hturns
      -- the piece lies in the front, so the turn takes it from the whole too
      have hn : n ≤ x.length := by
        rcases hadvances x hdata with hnone | ⟨value', n', hsome, -, hle⟩
        · cases hread.symm.trans hnone
        · cases hread.symm.trans hsome
          exact hle
      have hwhole := hkeeps x value n hdata hread y
      have hne : x ++ y ≠ [] := List.append_ne_nil_of_left_ne_nil hdata y
      have htake : (x ++ y).take n = x.take n := List.take_append_of_le_length hn
      have hdrop : (x ++ y).drop n = x.drop n ++ y := List.drop_append_of_le_length hn
      have hgo := ih hrest
      rw [← hdrop] at hgo
      have hall := whileData_took hne hwhole hgo
      rw [htake] at hall
      rw [Nat.succ_add]
      exact hall

/-- **How the bytes were cut is not seen.** From bytes that nothing can be taken from, the
loop over what arrives ends as the walk over all of it does. -/
theorem whileArriving_flatten (hkeeps : Keeps read) (hadvances : Advances read)
    {chunks : List (List α)} {left : List α} (hleft : Stopped read left) :
    ∃ visits rest, whileArriving read left chunks = .ok (some (visits, rest)) ∧
      ∀ turns, (left ++ chunks.flatten).length ≤ turns →
        whileData read turns (left ++ chunks.flatten) = .ok (some (visits, rest)) := by
  induction chunks generalizing left with
  | nil =>
    refine ⟨[], left, rfl, fun turns hturns => ?_⟩
    rw [List.flatten_nil, List.append_nil] at hturns ⊢
    exact whileData_stopped hleft hturns
  | cons chunk chunks ih =>
    obtain ⟨visits, middle, hchunk, -⟩ :=
      whileData_advances hadvances (Nat.le_refl (left ++ chunk).length)
    obtain ⟨visits', rest, harriving, hwalk⟩ := ih (whileData_left hchunk)
    refine ⟨visits ++ visits', rest, ?_, fun turns hturns => ?_⟩
    · rw [whileArriving, hchunk]
      simp only [harriving]
    · have hsplit : left ++ (chunk :: chunks).flatten = (left ++ chunk) ++ chunks.flatten := by
        rw [List.flatten_cons, List.append_assoc]
      have happend := whileData_append hkeeps hadvances hchunk (hwalk _ (Nat.le_refl _))
      rw [← hsplit] at happend
      -- there are turns enough, and the loop ends only one way
      obtain ⟨visits₁, rest₁, hends, -⟩ := whileData_advances hadvances hturns
      have hsame := (whileData_mono happend (Nat.le_max_left _ turns)).symm.trans
        (whileData_mono hends (Nat.le_max_right _ turns))
      cases hsame
      exact hends

/-- **A run of frames that has arrived in part.** The walk has visited the first frames, and
what it left is the start of the others, from which nothing can be taken. -/
theorem whileData_part (hkeeps : Keeps read) (hadvances : Advances read)
    {visits : List (List α × β)} (h : ∀ visit ∈ visits, Delimits read visit.1 visit.2)
    {x y : List α} (hrun : x ++ y = (visits.map Prod.fst).flatten) {turns : Nat}
    (hturns : x.length ≤ turns) :
    ∃ visited pending left, visits = visited ++ pending ∧
      whileData read turns x = .ok (some (visited, left)) ∧
      left ++ y = (pending.map Prod.fst).flatten ∧ Stopped read left ∧
      (Stopped read (left ++ y) → left ++ y = []) := by
  obtain ⟨visited, left, hx, -⟩ := whileData_advances hadvances hturns
  obtain ⟨pending, rest, hy, hflat, -⟩ :=
    whileData_advances hadvances (Nat.le_refl (left ++ y).length)
  have happend := whileData_append hkeeps hadvances hx hy
  have hall := whileData_flatten h (Nat.le_refl (visits.map Prod.fst).flatten.length)
  rw [← hrun] at hall
  have hsame := (whileData_mono happend (Nat.le_max_left _ _)).symm.trans
    (whileData_mono hall (Nat.le_max_right _ _))
  obtain ⟨hvisits, rfl⟩ := Prod.mk.inj (Option.some.inj (Except.ok.inj hsame))
  rw [List.append_nil] at hflat
  refine ⟨visited, pending, left, hvisits.symm, hx, hflat.symm, whileData_left hx, ?_⟩
  intro hstop
  -- a walk that is stopped at once leaves all of it, and this one left nothing
  have hnothing := (whileData_stopped hstop (Nat.le_refl _)).symm.trans hy
  exact (Prod.mk.inj (Option.some.inj (Except.ok.inj hnothing))).2

end OpenWebId.Lib
