import Hashwork.Proofs.Kernel.Run
import Hashwork.Scan.Basic

/-!
# What a search offers

Whatever the flag and the sink answer, a search offers the accepted shares of the nonces it has passed, in
order, each once and nothing else.  The answers decide only where it ends: at a share that is refused, at a
flag that is seen raised, or at the end of its range.
-/

namespace Hashwork

namespace Scan

/-- What a scan asked and was answered. -/
abbrev Transcript := List (Routine.Exchange Event.Answer)

/-- The shares offered, each with whether it was taken. -/
def offersIn (t : Transcript) : List (Share × Bool) :=
  t.filterMap fun
    | ⟨.offer share, taken⟩ => some (share, taken)
    | _ => none

def linesIn (t : Transcript) : List Log.Line :=
  t.filterMap fun
    | ⟨.note line, _⟩ => some line
    | _ => none

/-- The number of shares taken. -/
def takenIn (t : Transcript) : Nat :=
  (offersIn t).countP (·.2)

def foundLine (share : Share) : Log.Line :=
  ⟨.debug, "Found " ++ share.text⟩

/-- The looks at the flag in a run. -/
def looks (answers : List Bool) : Transcript :=
  answers.map fun raised ↦ ⟨.readFlag, raised⟩

/-- A share is noted and then offered. -/
def submission (share : Share) (taken : Bool) : Transcript :=
  [⟨.note (foundLine share), ()⟩, ⟨.offer share, taken⟩]

@[simp]
theorem offersIn_append (t t' : Transcript) : offersIn (t ++ t') = offersIn t ++ offersIn t' :=
  List.filterMap_append

@[simp]
theorem linesIn_append (t t' : Transcript) : linesIn (t ++ t') = linesIn t ++ linesIn t' :=
  List.filterMap_append

@[simp]
theorem offersIn_looks (answers : List Bool) : offersIn (looks answers) = [] := by
  simp [offersIn, looks]

@[simp]
theorem linesIn_looks (answers : List Bool) : linesIn (looks answers) = [] := by
  simp [linesIn, looks]

@[simp]
theorem offersIn_submission (share : Share) (taken : Bool) :
    offersIn (submission share taken) = [(share, taken)] := rfl

@[simp]
theorem linesIn_submission (share : Share) (taken : Bool) :
    linesIn (submission share taken) = [foundLine share] := rfl

theorem looks_append (answers answers' : List Bool) :
    looks (answers ++ answers') = looks answers ++ looks answers' :=
  List.map_append

/-- A run asks a scan's surroundings for nothing but the flag. -/
theorem eq_looks_of_embed {α : Type} {r : Polling α} {t : Transcript} {a : α}
    (h : Routine.Trace (r.embed (fun _ ↦ .readFlag) fun _ raised ↦ raised) t a) :
    ∃ polls, t = looks (Kernel.flagAnswers polls) ∧ Routine.Trace r polls a := by
  obtain ⟨asked, rfl, htrace⟩ := Routine.trace_of_embed h
  refine ⟨_, ?_, htrace⟩
  simp [looks, Kernel.flagAnswers]

/-- What offering the accepted shares from `first` on and below `finish` looks like, where no nonce from
`ceiling` on is tried. -/
structure Covered (item : WorkItem) (first finish ceiling : Nat) (t : Transcript)
    (ending : Ending) : Prop where
  lt_finish : first < finish
  finish_le : finish ≤ ceiling
  offers_eq : (offersIn t).map (·.1) = item.acceptedShares first finish
  /-- No kernel comes up with a share that fails its check. -/
  lines_eq : linesIn t = (item.acceptedShares first finish).map foundLine
  /-- After a refusal nothing is offered. -/
  early : ∀ offer ∈ (offersIn t).dropLast, offer.2 = true
  refused : ∀ offer ∈ offersIn t, offer.2 = false →
    ending = .cancelled ∧ offer.1.nonce.toNat + 1 = finish
  /-- A flag that has been lowered since the last batch was ended by it goes unnoticed. -/
  exhausted : ending = .exhausted → finish = ceiling ∨ ∃ t', t = t' ++ looks [true, false]
  cancelled : ending = .cancelled →
    (∃ offer ∈ offersIn t, offer.2 = false) ∨ ⟨.readFlag, true⟩ ∈ t

namespace Covered

variable {lanes : Nat} {item other : WorkItem} {past : Digest} {first max finish ceiling : Nat}
  {answers : List Bool} {last : Word} {t : Transcript} {ending : Ending}

/-- A run that finds nothing, with the look at the flag after it. -/
theorem missed (hran : Kernel.Ran lanes item past first max answers other false last)
    (hmax : last.toNat ≤ max) (raised : Bool) :
    Covered item first (last.toNat + 1) (max + 1) (looks answers ++ looks [raised])
      (if raised then .cancelled else .exhausted) where
  lt_finish := Nat.lt_succ_of_le hran.first_le
  finish_le := Nat.succ_le_succ hmax
  offers_eq := by simp [hran.acceptedShares_eq]
  lines_eq := by simp [hran.acceptedShares_eq]
  early offer hmem := by simp at hmem
  refused offer hmem := by simp at hmem
  exhausted hending := by
    obtain rfl : raised = false := by
      cases raised with
      | false => rfl
      | true => cases hending
    by_cases hstopped : answers.getLast? = some true
    · obtain ⟨earlier, rfl⟩ := List.getLast?_eq_some_iff.mp hstopped
      right
      refine ⟨looks earlier, ?_⟩
      rw [looks_append, List.append_assoc, ← looks_append]
      rfl
    · left
      rw [hran.finished hstopped rfl]
  cancelled hending := by
    cases raised with
    | true => exact .inr (List.mem_append_right _ (List.mem_singleton.mpr rfl))
    | false => cases hending

/-- A run that finds a share after which no other run follows. -/
theorem found (hran : Kernel.Ran lanes item past first max answers other true last)
    (hmax : last.toNat ≤ max) (taken : Bool) (later : List Bool)
    (hrefused : taken = false → ending = .cancelled)
    (hexhausted : ending = .exhausted → last.toNat = max)
    (hcancelled : ending = .cancelled → taken = false ∨ true ∈ later) :
    Covered item first (last.toNat + 1) (max + 1)
      (looks answers ++ (submission (item.shareAt last) taken ++ looks later)) ending where
  lt_finish := Nat.lt_succ_of_le hran.first_le
  finish_le := Nat.succ_le_succ hmax
  offers_eq := by simp [hran.acceptedShares_eq]
  lines_eq := by simp [hran.acceptedShares_eq]
  early offer hmem := by simp at hmem
  refused offer hmem hnot := by
    simp only [offersIn_append, offersIn_looks, offersIn_submission, List.append_nil, List.nil_append,
      List.mem_singleton] at hmem
    subst hmem
    exact ⟨hrefused hnot, rfl⟩
  exhausted hending := .inl (congrArg (· + 1) (hexhausted hending))
  cancelled hending := by
    rcases hcancelled hending with hnot | hraised
    · exact .inl ⟨(item.shareAt last, taken), by simp, hnot⟩
    · refine .inr (List.mem_append_right _ (List.mem_append_right _ ?_))
      exact List.mem_map_of_mem hraised

/-- A run that finds a share, which is taken, before the rest of a search. -/
theorem cons (hran : Kernel.Ran lanes item past first max answers other true last)
    (hrest : Covered item (last.toNat + 1) finish ceiling t ending) :
    Covered item first finish ceiling
      (looks answers ++ (submission (item.shareAt last) true ++ (looks [false] ++ t))) ending where
  lt_finish := Nat.lt_of_le_of_lt (Nat.le_succ_of_le hran.first_le) hrest.lt_finish
  finish_le := hrest.finish_le
  offers_eq := by
    rw [hran.acceptedShares_cons (Nat.le_of_lt hrest.lt_finish), ← hrest.offers_eq]
    simp
  lines_eq := by
    rw [hran.acceptedShares_cons (Nat.le_of_lt hrest.lt_finish), List.map_cons, ← hrest.lines_eq]
    simp
  early offer hmem := by
    simp only [offersIn_append, offersIn_looks, offersIn_submission, List.nil_append] at hmem
    cases heq : offersIn t with
    | nil => simp [heq] at hmem
    | cons next rest =>
      rw [heq, List.singleton_append, List.dropLast_cons_cons] at hmem
      rcases List.mem_cons.mp hmem with rfl | hmem
      · rfl
      · exact hrest.early offer (heq ▸ hmem)
  refused offer hmem hnot := by
    simp only [offersIn_append, offersIn_looks, offersIn_submission, List.nil_append,
      List.mem_append, List.mem_singleton] at hmem
    rcases hmem with rfl | hmem
    · cases hnot
    · exact hrest.refused offer hmem hnot
  exhausted hending := by
    rcases hrest.exhausted hending with hfinish | ⟨t', rfl⟩
    · exact .inl hfinish
    · refine .inr ⟨looks answers ++ (submission (item.shareAt last) true ++ (looks [false] ++ t')), ?_⟩
      simp only [List.append_assoc]
  cancelled hending := by
    rcases hrest.cancelled hending with ⟨offer, hmem, hnot⟩ | hraised
    · exact .inl ⟨offer, by simp [hmem], hnot⟩
    · exact .inr (by simp [hraised])

theorem of_template (h : item.template = other.template)
    (hcovered : Covered other first finish ceiling t ending) :
    Covered item first finish ceiling t ending where
  lt_finish := hcovered.lt_finish
  finish_le := hcovered.finish_le
  offers_eq := by rw [item.acceptedShares_eq_of_template h, hcovered.offers_eq]
  lines_eq := by rw [item.acceptedShares_eq_of_template h, hcovered.lines_eq]
  early := hcovered.early
  refused := hcovered.refused
  exhausted := hcovered.exhausted
  cancelled := hcovered.cancelled

end Covered

end Scan

namespace Scanner

open Scan

/-- A share that passes its check is noted and offered, and counts for one if it is taken. -/
theorem trace_submit {item : WorkItem} {share : Share} (hcheck : item.checkShare share = true)
    {t : Transcript} {result : Option Nat} (h : Routine.Trace (submit item share) t result) :
    t = submission share result.isSome ∧ ∀ taken, result = some taken → taken = 1 := by
  simp only [submit, if_pos hcheck, note, offer, Routine.ask_bind, Routine.done_bind,
    Routine.pure_eq_done] at h
  obtain ⟨_, t₁, rfl, hnoted⟩ := Routine.trace_ask_iff.mp h
  obtain ⟨taken, t₂, rfl, hoffered⟩ := Routine.trace_ask_iff.mp hnoted
  obtain ⟨rfl, rfl⟩ := Routine.trace_done_iff.mp hoffered
  cases taken with
  | false => exact ⟨rfl, fun _ hnone ↦ by cases hnone⟩
  | true => exact ⟨rfl, fun _ hone ↦ (Option.some.inj hone).symm⟩

/-- What a search comes to, when `shares` had been taken before. -/
structure Searched (item : WorkItem) (shares : Nat) (foundAny : Bool) (nonce max : Word)
    (t : Transcript) (stop : Stop) : Prop
    extends Covered item nonce.toNat (stop.last.toNat + 1) (max.toNat + 1) t stop.ending where
  item_eq : stop.item = item.record stop.last
    (item.lastCandidate item.hash (noncesBetween nonce.toNat (stop.last.toNat + 1)))
  shares_eq : stop.shares = shares + takenIn t
  foundAny_eq : stop.foundAny = (foundAny || !(offersIn t).isEmpty)

namespace Searched

variable {lanes : Nat} {item next : WorkItem} {shares : Nat} {foundAny : Bool}
  {nonce max last : Word} {answers : List Bool} {t : Transcript} {stop : Stop}

theorem missed (hran : Kernel.Ran lanes item item.hash nonce.toNat max.toNat answers next false last)
    (hmax : last ≤ max) (raised : Bool) :
    Searched item shares foundAny nonce max (looks answers ++ looks [raised])
      ⟨next, last, if raised then .cancelled else .exhausted, shares, foundAny⟩ where
  toCovered := .missed hran hmax raised
  item_eq := hran.item_eq
  shares_eq := by simp [takenIn]
  foundAny_eq := by simp

theorem found (hran : Kernel.Ran lanes item item.hash nonce.toNat max.toNat answers next true last)
    (hmax : last ≤ max) (taken : Bool) (later : List Bool) {ending : Ending}
    (hrefused : taken = false → ending = .cancelled) (hexhausted : ending = .exhausted → last = max)
    (hcancelled : ending = .cancelled → taken = false ∨ true ∈ later) :
    Searched item shares foundAny nonce max
      (looks answers ++ (submission (item.shareAt last) taken ++ looks later))
      ⟨next, last, ending, if taken then shares + 1 else shares, true⟩ where
  toCovered := .found hran hmax taken later hrefused (fun h ↦ congrArg _ (hexhausted h)) hcancelled
  item_eq := hran.item_eq
  shares_eq := by
    cases taken <;> simp [takenIn]
  foundAny_eq := by simp

theorem cons (hran : Kernel.Ran lanes item item.hash nonce.toNat max.toNat answers next true last)
    (hlt : last < max) (hrest : Searched next (shares + 1) true (last + 1) max t stop) :
    Searched item shares foundAny nonce max
      (looks answers ++ (submission (item.shareAt last) true ++ (looks [false] ++ t))) stop := by
  have hnext := Word.toNat_add_one hlt
  have hcovered := hrest.toCovered.of_template hran.template_eq.symm
  have hitem := hrest.item_eq
  have hpassed := hcovered.lt_finish
  rw [hnext] at hcovered hitem hpassed
  have hpast : next.hash =
      item.lastCandidate item.hash (noncesBetween nonce.toNat (last.toNat + 1)) :=
    congrArg WorkItem.hash hran.item_eq
  have hrecord (hash : Digest) : next.record stop.last hash = item.record stop.last hash := by
    rw [hran.item_eq, WorkItem.record_record]
  exact {
    Covered.cons hran hcovered with
    item_eq := by
      have happend := item.lastCandidate_append item.hash (Nat.le_succ_of_le hran.first_le)
        (Nat.le_of_lt hpassed)
      rw [hitem, hrecord, next.lastCandidate_eq_of_template hran.template_eq, hpast, happend]
    shares_eq := by
      rw [hrest.shares_eq]
      simp [takenIn]
      omega
    foundAny_eq := by
      rw [hrest.foundAny_eq]
      simp }

end Searched

/-- How a search goes on from a nonce: a run, what is asked after it, and the search from the next nonce on
if there is one. -/
inductive Runs (kernel : Kernel) (max : Word) :
    WorkItem → Nat → Bool → Word → Transcript → Stop → Prop
  | missed {item next : WorkItem} {shares : Nat} {foundAny : Bool} {nonce : Word} {h : nonce ≤ max}
    {polls : List (Routine.Exchange fun _ : Unit ↦ Bool)} (run : Run ⟨nonce, max, h⟩)
    (hrun : Routine.Trace (kernel.run item ⟨nonce, max, h⟩) polls (next, run))
    (hfound : run.found = false) (raised : Bool) :
    Runs kernel max item shares foundAny nonce (looks (Kernel.flagAnswers polls) ++ looks [raised])
      ⟨next, run.last, if raised then .cancelled else .exhausted, shares, foundAny⟩
  | refused {item next : WorkItem} {shares : Nat} {foundAny : Bool} {nonce : Word} {h : nonce ≤ max}
    {polls : List (Routine.Exchange fun _ : Unit ↦ Bool)} {t : Transcript}
    (run : Run ⟨nonce, max, h⟩)
    (hrun : Routine.Trace (kernel.run item ⟨nonce, max, h⟩) polls (next, run))
    (hfound : run.found = true)
    (hsubmit : Routine.Trace (submit next ⟨run.last, next.hash⟩) t none) :
    Runs kernel max item shares foundAny nonce (looks (Kernel.flagAnswers polls) ++ t)
      ⟨next, run.last, .cancelled, shares, true⟩
  | exhausted {item next : WorkItem} {shares taken : Nat} {foundAny : Bool} {nonce : Word}
    {h : nonce ≤ max} {polls : List (Routine.Exchange fun _ : Unit ↦ Bool)} {t : Transcript}
    (run : Run ⟨nonce, max, h⟩)
    (hrun : Routine.Trace (kernel.run item ⟨nonce, max, h⟩) polls (next, run))
    (hfound : run.found = true)
    (hsubmit : Routine.Trace (submit next ⟨run.last, next.hash⟩) t (some taken))
    (hlast : run.last = max) :
    Runs kernel max item shares foundAny nonce (looks (Kernel.flagAnswers polls) ++ t)
      ⟨next, run.last, .exhausted, shares + taken, true⟩
  | cancelled {item next : WorkItem} {shares taken : Nat} {foundAny : Bool} {nonce : Word}
    {h : nonce ≤ max} {polls : List (Routine.Exchange fun _ : Unit ↦ Bool)} {t : Transcript}
    (run : Run ⟨nonce, max, h⟩)
    (hrun : Routine.Trace (kernel.run item ⟨nonce, max, h⟩) polls (next, run))
    (hfound : run.found = true)
    (hsubmit : Routine.Trace (submit next ⟨run.last, next.hash⟩) t (some taken))
    (hlt : run.last < max) :
    Runs kernel max item shares foundAny nonce
      (looks (Kernel.flagAnswers polls) ++ (t ++ looks [true]))
      ⟨next, run.last, .cancelled, shares + taken, true⟩
  | continued {item next : WorkItem} {shares taken : Nat} {foundAny : Bool} {nonce : Word}
    {h : nonce ≤ max} {polls : List (Routine.Exchange fun _ : Unit ↦ Bool)}
    {t later : Transcript} {stop : Stop} (run : Run ⟨nonce, max, h⟩)
    (hrun : Routine.Trace (kernel.run item ⟨nonce, max, h⟩) polls (next, run))
    (hfound : run.found = true)
    (hsubmit : Routine.Trace (submit next ⟨run.last, next.hash⟩) t (some taken))
    (hlt : run.last < max)
    (hrest : Runs kernel max next (shares + taken) true (run.last + 1) later stop) :
    Runs kernel max item shares foundAny nonce
      (looks (Kernel.flagAnswers polls) ++ (t ++ (looks [false] ++ later))) stop

variable {kernel : Kernel} {max nonce : Word} {item : WorkItem} {shares : Nat} {foundAny : Bool}
  {t : Transcript} {stop : Stop}

/-- This is all that a search can do. -/
theorem runs_of_trace {h : nonce ≤ max}
    (htrace : Routine.Trace (search kernel max item shares foundAny nonce h) t stop) :
    Runs kernel max item shares foundAny nonce t stop := by
  induction hleft : max.toNat - nonce.toNat using Nat.strong_induction_on
    generalizing item shares foundAny nonce t with
  | h left ih =>
    rw [search] at htrace
    obtain ⟨t₁, t₂, ⟨next, run⟩, rfl, hembedded, hrest⟩ := Routine.trace_bind_iff.mp htrace
    obtain ⟨polls, rfl, hrun⟩ := eq_looks_of_embed hembedded
    dsimp only at hrest
    split at hrest
    · rename_i hfound
      obtain ⟨t₃, t₄, result, rfl, hsubmit, hafter⟩ := Routine.trace_bind_iff.mp hrest
      cases result with
      | none =>
        obtain ⟨rfl, rfl⟩ := Routine.trace_done_iff.mp hafter
        rw [List.append_nil]
        exact .refused run hrun hfound hsubmit
      | some taken =>
        dsimp only at hafter
        split at hafter
        · rename_i hlast
          obtain ⟨rfl, rfl⟩ := Routine.trace_done_iff.mp hafter
          rw [List.append_nil]
          exact .exhausted run hrun hfound hsubmit hlast
        · rename_i hlast
          have hlt : run.last < max := UInt32.lt_of_le_of_ne run.le_last hlast
          obtain ⟨raised, t₅, rfl, hlater⟩ := Routine.trace_ask_iff.mp hafter
          cases raised with
          | true =>
            obtain ⟨rfl, rfl⟩ := Routine.trace_done_iff.mp hlater
            exact .cancelled run hrun hfound hsubmit hlt
          | false =>
            have hdecreases := Word.sub_add_one_lt run.first_le hlt
            exact .continued run hrun hfound hsubmit hlt (ih _ (hleft ▸ hdecreases) hlater rfl)
    · rename_i hfound
      obtain ⟨raised, t₃, rfl, hdone⟩ := Routine.trace_ask_iff.mp hrest
      obtain ⟨rfl, rfl⟩ := Routine.trace_done_iff.mp hdone
      exact .missed run hrun (Bool.eq_false_iff.mpr hfound) raised

/-- What a run of an exact kernel comes up with passes its check. -/
theorem trace_submit_of_ran {lanes : Nat} {past : Digest} {next : WorkItem} {first max : Nat}
    {answers : List Bool} {last : Word}
    (hran : Kernel.Ran lanes item past first max answers next true last) {result : Option Nat}
    (h : Routine.Trace (submit next ⟨last, next.hash⟩) t result) :
    t = submission (item.shareAt last) result.isSome ∧ ∀ taken, result = some taken → taken = 1 := by
  have hcheck : next.checkShare (item.shareAt last) = true := by
    rw [WorkItem.checkShare_eq_of_template hran.template_eq, item.checkShare_shareAt, ← hran.found_eq]
  rw [hran.share_eq rfl] at h
  exact trace_submit hcheck h

theorem searched_of_runs (hexact : kernel.Exact) (hpow : item.pow = kernel.pow)
    (hconsistent : item.Consistent) (h : Runs kernel max item shares foundAny nonce t stop) :
    Searched item shares foundAny nonce max t stop := by
  induction h with
  | missed run hrun hfound raised =>
    have hran := Kernel.ran_run hexact hpow hconsistent hrun
    rw [hfound] at hran
    exact .missed hran run.le_last raised
  | refused run hrun hfound hsubmit =>
    have hran := Kernel.ran_run hexact hpow hconsistent hrun
    rw [hfound] at hran
    obtain ⟨rfl, -⟩ := trace_submit_of_ran hran hsubmit
    exact .found hran run.le_last false [] (fun _ ↦ rfl) (fun h ↦ by cases h) fun _ ↦ .inl rfl
  | exhausted run hrun hfound hsubmit hlast =>
    have hran := Kernel.ran_run hexact hpow hconsistent hrun
    rw [hfound] at hran
    obtain ⟨rfl, hone⟩ := trace_submit_of_ran hran hsubmit
    obtain rfl := hone _ rfl
    exact .found hran run.le_last true [] (fun h ↦ by cases h) (fun _ ↦ hlast) fun h ↦ by cases h
  | cancelled run hrun hfound hsubmit hlt =>
    have hran := Kernel.ran_run hexact hpow hconsistent hrun
    rw [hfound] at hran
    obtain ⟨rfl, hone⟩ := trace_submit_of_ran hran hsubmit
    obtain rfl := hone _ rfl
    exact .found hran run.le_last true [true] (fun h ↦ by cases h) (fun h ↦ by cases h) fun _ ↦
      .inr (List.mem_singleton.mpr rfl)
  | continued run hrun hfound hsubmit hlt _ ih =>
    have hran := Kernel.ran_run hexact hpow hconsistent hrun
    rw [hfound] at hran
    obtain ⟨rfl, hone⟩ := trace_submit_of_ran hran hsubmit
    obtain rfl := hone _ rfl
    have hpow' := (WorkItem.pow_eq_of_template hran.template_eq).trans hpow
    have hconsistent' := (WorkItem.consistent_iff_of_template hran.template_eq).mpr hconsistent
    exact .cons hran hlt (ih hpow' hconsistent')

/-- No search changes the template or ends before it begins, whichever kernel it has. -/
theorem stop_of_runs (h : Runs kernel max item shares foundAny nonce t stop) :
    stop.item.template = item.template ∧ nonce ≤ stop.last := by
  induction h with
  | missed run hrun => exact ⟨Kernel.template_run hrun, run.first_le⟩
  | refused run hrun => exact ⟨Kernel.template_run hrun, run.first_le⟩
  | exhausted run hrun => exact ⟨Kernel.template_run hrun, run.first_le⟩
  | cancelled run hrun => exact ⟨Kernel.template_run hrun, run.first_le⟩
  | continued run hrun _ _ hlt _ ih =>
    constructor
    · rw [ih.1, Kernel.template_run hrun]
    · exact UInt32.le_trans (Word.le_add_one run.first_le hlt) ih.2

end Scanner

end Hashwork
