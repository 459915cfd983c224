import Hashwork.Selection.Arena
import Mathlib.Data.List.Basic

/-!
# What a history says about the cell

What is in the cell was written last.  A history is orderly if the cell was empty whenever an algorithm was
benchmarked or written, if only resets have emptied it, and if every reply was in the cell at some moment of
its call.  In a stretch without a reset, before which the cell was empty, at most one algorithm is then
written, and all replies agree on it.

Histories are lists with the latest happening first.
-/

namespace Hashwork.Selection

abbrev History := List (Nat × Happening)

def Happening.written? : Happening → Option (Option Algorithm)
  | .wrote content => some content
  | _ => none

namespace History

/-- All that was written, latest first. -/
def writes (history : History) : List (Option Algorithm) :=
  history.filterMap fun happening ↦ happening.2.written?

/-- What is in the cell after all this. -/
def content (history : History) : Option Algorithm :=
  history.writes.head?.getD none

/-- The call that a caller is in, or has made last. -/
def call? (caller : Nat) : History → Option Call
  | [] => none
  | (i, .called call) :: earlier => if i = caller then some call else call? caller earlier
  | _ :: earlier => call? caller earlier

/-- The algorithm that a caller has written in its call. -/
def selected? (caller : Nat) : History → Option Algorithm
  | [] => none
  | (i, .called _) :: earlier => if i = caller then none else selected? caller earlier
  | (i, .wrote content) :: earlier => if i = caller then content else selected? caller earlier
  | _ :: earlier => selected? caller earlier

/-- Since a caller has called, there has been a moment when this was in the cell. -/
def Seen (caller : Nat) (history : History) (content : Option Algorithm) : Prop :=
  ∃ later earlier : History, history = later ++ earlier ∧ (∀ call, (caller, .called call) ∉ later) ∧
    earlier.content = content

/-- Whether a call may end with this reply. -/
def Answers (caller : Nat) (history : History) : Reply → Prop
  | .resolved (.ok algorithm) =>
    history.Seen caller (some algorithm) ∧
      ∀ selected ∈ history.selected? caller, selected = algorithm
  | .resolved (.error .nothingUsable) =>
    history.selected? caller = none ∧ ∃ choice, history.call? caller = some (.resolve choice [])
  | .resolved (.error (.givenUp _)) => history.selected? caller = none
  | .chosen content => history.Seen caller content ∧ history.selected? caller = none
  | .emptied => history.selected? caller = none

/-- Whether a caller may do this after all else. -/
def Allows (caller : Nat) (history : History) : Happening → Prop
  | .wrote (some _) | .benchmarked _ => history.content = none
  | .wrote none => history.call? caller = some .reset
  | .returned reply => history.Answers caller reply
  | _ => True

def Orderly : History → Prop
  | [] => True
  | (caller, happening) :: earlier => Allows caller earlier happening ∧ Orderly earlier

section Lists

variable {history later earlier stretch : History} {caller i : Nat} {happening : Happening}

@[simp]
theorem writes_append (later earlier : History) :
    writes (later ++ earlier) = writes later ++ writes earlier :=
  List.filterMap_append

theorem mem_writes {content : Option Algorithm} :
    content ∈ writes history ↔ ∃ i, (i, .wrote content) ∈ history := by
  simp only [writes, List.mem_filterMap, Prod.exists]
  constructor
  · rintro ⟨i, happening, hmem, hwritten⟩
    cases happening with
    | wrote content' =>
      obtain rfl : content' = content := Option.some.inj hwritten
      exact ⟨i, hmem⟩
    | _ => cases hwritten
  · rintro ⟨i, hmem⟩
    exact ⟨i, _, hmem, rfl⟩

theorem Orderly.allows (h : Orderly (later ++ (caller, happening) :: earlier)) :
    Allows caller earlier happening := by
  induction later with
  | nil => exact h.1
  | cons _ later ih => exact ih h.2

theorem Orderly.of_append (h : Orderly (later ++ earlier)) : Orderly earlier := by
  induction later with
  | nil => exact h
  | cons _ later ih => exact ih h.2

theorem seen_content (caller : Nat) (history : History) : history.Seen caller history.content :=
  ⟨[], history, rfl, fun _ ↦ List.not_mem_nil, rfl⟩

/-- What has been seen stays seen during the call. -/
theorem Seen.cons {content : Option Algorithm} (h : history.Seen caller content)
    (hgoing : ∀ call, (i, happening) ≠ (caller, .called call)) :
    Seen caller ((i, happening) :: history) content := by
  obtain ⟨later, earlier, rfl, hlater, hcontent⟩ := h
  refine ⟨(i, happening) :: later, earlier, rfl, ?_, hcontent⟩
  intro call hmem
  rcases List.mem_cons.mp hmem with heq | hmem
  · exact hgoing call heq.symm
  · exact hlater call hmem

/-- A moment since the last call lies in what happened after it. -/
theorem Seen.exists_split {content : Option Algorithm} {call : Call}
    (h : Seen caller (later ++ (caller, .called call) :: earlier) content) :
    ∃ after before : History, later = after ++ before ∧
      History.content (before ++ (caller, .called call) :: earlier) = content := by
  obtain ⟨after, rest, heq, hafter, rfl⟩ := h
  rcases List.append_eq_append_iff.mp heq with ⟨middle, rfl, hrest⟩ | ⟨middle, rfl, hrest⟩
  · cases middle with
    | nil => exact ⟨later, [], (List.append_nil _).symm, congrArg History.content hrest⟩
    | cons happening middle =>
      obtain ⟨rfl, -⟩ := List.cons.inj hrest
      exact absurd (List.mem_append_right later List.mem_cons_self) (hafter call)
  · exact ⟨after, middle, rfl, congrArg History.content hrest.symm⟩

/-- Without a call or a write a caller has selected what it had. -/
theorem selected?_append {earlier : History} (hcalls : ∀ call, (caller, .called call) ∉ later)
    (hwrites : writes later = []) :
    selected? caller (later ++ earlier) = selected? caller earlier := by
  induction later with
  | nil => rfl
  | cons happening later ih =>
    obtain ⟨i, happening⟩ := happening
    have hrest := ih fun call hmem ↦ hcalls call (List.mem_cons_of_mem _ hmem)
    cases happening with
    | called call =>
      have hother : i ≠ caller := fun heq ↦ hcalls call (heq ▸ List.mem_cons_self)
      simp only [List.cons_append, selected?, if_neg hother]
      exact hrest hwrites
    | wrote content => cases hwrites
    | benchmarked algorithm => exact hrest hwrites
    | noted line => exact hrest hwrites
    | returned reply => exact hrest hwrites

end Lists

/-- A stretch of a history, from a reset or from the beginning on, in which nobody empties the cell. -/
structure Period (history stretch : History) : Prop where
  exists_split : ∃ later earlier : History, history = later ++ (stretch ++ earlier) ∧
    (earlier = [] ∨ ∃ i rest, earlier = (i, .wrote none) :: rest)
  kept : none ∉ stretch.writes

/-- Whoever uses the cell during a stretch agrees on `selected`, if anything was selected. -/
structure Agreed (stretch : History) (selected : Option Algorithm) : Prop where
  /-- One algorithm is written at most. -/
  writes_eq : stretch.writes = selected.toList.map some
  /-- The call that has written it returns it. -/
  carried : ∀ caller algorithm reply later during before,
    stretch = later ++ (caller, .returned reply) :: (during ++ (caller, .wrote (some algorithm)) ::
      before) → (∀ call, (caller, .called call) ∉ during) → reply = .resolved (.ok algorithm)
  /-- So does every call within the stretch that resolves a choice. -/
  resolved : ∀ caller choice candidates algorithm later during before,
    stretch = later ++ (caller, .returned (.resolved (.ok algorithm))) ::
      (during ++ (caller, .called (.resolve choice candidates)) :: before) →
        selected = some algorithm
  /-- Whoever asks once it is written is told. -/
  chosen : ∀ caller content algorithm later during before,
    stretch = later ++ (caller, .returned (.chosen content)) ::
      (during ++ (caller, .called .chosen) :: before) →
        some algorithm ∈ writes before → content = some algorithm ∧ selected = some algorithm
  /-- Nothing is benchmarked any more. -/
  settled : ∀ caller algorithm later before, stretch = later ++ (caller, .wrote (some algorithm)) ::
    before → ∀ i other, (i, .benchmarked other) ∉ later

section Stretch

variable {stretch later before earlier : History} {caller : Nat} {algorithm : Algorithm}

/-- During a stretch the cell holds what was written in it last. -/
theorem content_append (hempty : earlier.content = none) :
    History.content (stretch ++ earlier) = stretch.writes.head?.getD none := by
  unfold content at hempty ⊢
  rw [writes_append, List.head?_append]
  cases stretch.writes.head? with
  | none => exact hempty
  | some content => rfl

/-- While the cell is empty, nothing has been written. -/
theorem writes_eq_nil (hempty : earlier.content = none) (hkept : none ∉ stretch.writes)
    (h : History.content (stretch ++ earlier) = none) : stretch.writes = [] := by
  rw [content_append hempty] at h
  cases hwrites : stretch.writes with
  | nil => rfl
  | cons content rest =>
    rw [hwrites] at h hkept
    obtain rfl : content = none := h
    exact absurd List.mem_cons_self hkept

theorem exists_writes_eq (horderly : Orderly (stretch ++ earlier)) (hempty : earlier.content = none)
    (hkept : none ∉ stretch.writes) :
    ∃ selected : Option Algorithm, stretch.writes = selected.toList.map some := by
  induction stretch with
  | nil => exact ⟨none, rfl⟩
  | cons happening before ih =>
    obtain ⟨i, happening⟩ := happening
    have hsplit : writes ((i, happening) :: before) =
        writes [(i, happening)] ++ writes before := writes_append [(i, happening)] before
    rw [hsplit] at hkept ⊢
    have hbefore : none ∉ writes before := fun hmem ↦ hkept (List.mem_append_right _ hmem)
    cases happening with
    | wrote content =>
      cases content with
      | none => exact absurd (List.mem_append_left _ List.mem_cons_self) hkept
      | some algorithm =>
        have hnone := writes_eq_nil hempty hbefore horderly.1
        rw [hnone]
        exact ⟨some algorithm, rfl⟩
    | _ => exact ih horderly.2 hbefore

theorem mem_writes_of_head? (h : stretch.writes.head?.getD none = some algorithm) :
    some algorithm ∈ stretch.writes := by
  cases hhead : stretch.writes.head? with
  | none =>
    rw [hhead] at h
    cases h
  | some content =>
    rw [hhead] at h
    obtain rfl : content = some algorithm := h
    exact List.mem_of_head? hhead

/-- Of a stretch with one write, the part that has it has no other. -/
theorem writes_of_mem {selected : Option Algorithm}
    (hselected : writes (later ++ before) = selected.toList.map some)
    (hmem : some algorithm ∈ before.writes) :
    later.writes = [] ∧ before.writes = [some algorithm] ∧ selected = some algorithm := by
  rw [writes_append] at hselected
  cases selected with
  | none =>
    rw [(List.append_eq_nil_iff.mp hselected).2] at hmem
    exact absurd hmem List.not_mem_nil
  | some selected =>
    rcases List.append_eq_singleton_iff.mp hselected with ⟨hlater, hbefore⟩ | ⟨-, hbefore⟩
    · rw [hbefore] at hmem
      obtain rfl : algorithm = selected := Option.some.inj (List.mem_singleton.mp hmem)
      exact ⟨hlater, hbefore, rfl⟩
    · rw [hbefore] at hmem
      exact absurd hmem List.not_mem_nil

/-- A call that has written an algorithm can return nothing else. -/
theorem Answers.eq_of_selected? {history : History} {reply : Reply} (h : history.Answers caller reply)
    (hselected : history.selected? caller = some algorithm) : reply = .resolved (.ok algorithm) := by
  match reply, h with
  | .resolved (.ok other), h => rw [h.2 algorithm hselected]
  | .resolved (.error .nothingUsable), h => cases hselected.symm.trans h.1
  | .resolved (.error (.givenUp _)), h => cases hselected.symm.trans h
  | .chosen _, h => cases hselected.symm.trans h.2
  | .emptied, h => cases hselected.symm.trans h

/-- What a reply rests on was in the cell at a moment of its call.  If the call lies in the stretch, so does
that moment. -/
theorem exists_moment {during : History} {call : Call} {reply : Reply} {content : Option Algorithm}
    (hempty : earlier.content = none)
    (hstretch : stretch = later ++ (caller, .returned reply) ::
      (during ++ (caller, .called call) :: before))
    (hseen : Seen caller (during ++ (caller, .called call) :: (before ++ earlier)) content) :
    ∃ front middle : History, stretch = front ++ (middle ++ (caller, .called call) :: before) ∧
      content = (writes (middle ++ (caller, .called call) :: before)).head?.getD none := by
  obtain ⟨after, middle, rfl, rfl⟩ := hseen.exists_split
  refine ⟨later ++ (caller, .returned reply) :: after, middle, ?_, ?_⟩
  · simp only [hstretch, List.append_assoc, List.cons_append]
  · rw [← content_append hempty]
    simp only [List.append_assoc, List.cons_append]

/-- In an orderly history all agree from one reset to the next. -/
theorem exists_agreed (horderly : Orderly (stretch ++ earlier)) (hempty : earlier.content = none)
    (hkept : none ∉ stretch.writes) : ∃ selected, Agreed stretch selected := by
  obtain ⟨selected, hselected⟩ := exists_writes_eq horderly hempty hkept
  refine ⟨selected, {
    writes_eq := hselected
    carried := ?_
    resolved := ?_
    chosen := ?_
    settled := ?_ }⟩
  · rintro caller algorithm reply later during before rfl hcalls
    have hmem : some algorithm ∈ writes ((caller, .wrote (some algorithm)) :: before) :=
      mem_writes.mpr ⟨caller, List.mem_cons_self⟩
    have hsplit : later ++ (caller, .returned reply) ::
        (during ++ (caller, .wrote (some algorithm)) :: before) =
          (later ++ (caller, .returned reply) :: during) ++
            (caller, .wrote (some algorithm)) :: before := by
      simp only [List.append_assoc, List.cons_append]
    rw [hsplit] at hselected
    obtain ⟨hnone, -⟩ := writes_of_mem hselected hmem
    rw [writes_append] at hnone
    have hduring : writes during = [] := (List.append_eq_nil_iff.mp hnone).2
    simp only [List.append_assoc, List.cons_append] at horderly
    apply Answers.eq_of_selected? horderly.allows
    rw [selected?_append hcalls hduring]
    exact if_pos rfl
  · intro caller choice candidates algorithm later during before hstretch
    have hreturned := hstretch ▸ horderly
    simp only [List.append_assoc, List.cons_append] at hreturned
    obtain ⟨front, middle, hsplit, hcontent⟩ := exists_moment hempty hstretch hreturned.allows.1
    rw [hsplit] at hselected
    exact (writes_of_mem hselected (mem_writes_of_head? hcontent.symm)).2.2
  · intro caller content algorithm later during before hstretch hmem
    have hreturned := hstretch ▸ horderly
    simp only [List.append_assoc, List.cons_append] at hreturned
    obtain ⟨front, middle, hsplit, hcontent⟩ := exists_moment hempty hstretch hreturned.allows.1
    have hpart : some algorithm ∈ writes (middle ++ (caller, .called .chosen) :: before) := by
      rw [writes_append]
      exact List.mem_append_right _ hmem
    rw [hsplit] at hselected
    obtain ⟨-, hone, hagreed⟩ := writes_of_mem hselected hpart
    rw [hone] at hcontent
    exact ⟨hcontent, hagreed⟩
  · rintro caller algorithm later before rfl i other hmem
    obtain ⟨after, middle, rfl⟩ := List.append_of_mem hmem
    have hsplit : (after ++ (i, .benchmarked other) :: middle) ++
        (caller, .wrote (some algorithm)) :: before = (after ++ [(i, .benchmarked other)]) ++
          (middle ++ (caller, .wrote (some algorithm)) :: before) := by
      simp only [List.append_assoc, List.cons_append, List.nil_append]
    rw [hsplit, writes_append] at hkept
    simp only [List.append_assoc, List.cons_append] at horderly
    have hnone : writes (middle ++ (caller, .wrote (some algorithm)) :: before) = [] := by
      apply writes_eq_nil hempty fun hmem ↦ hkept (List.mem_append_right _ hmem)
      simp only [List.append_assoc, List.cons_append]
      exact horderly.allows
    rw [writes_append] at hnone
    cases (List.append_eq_nil_iff.mp hnone).2

end Stretch

end History

end Hashwork.Selection
