import Hashwork.Proofs.Scan.Call
import Hashwork.Proofs.Scan.Pace
import Hashwork.Proofs.Scan.World
import Mathlib.Data.Finset.Card

/-!
# Cancelled scans

Whatever the kernel and whenever the flag is raised for good, a scan keeps its pace, and what it has decided
are the nonces from where it began up to where the next scan begins.  So at most one batch is hashed in vain,
and no accepted nonce that has been passed is lost.
-/

namespace Hashwork

open Scan
open Routine (askedIn marksIn)

namespace Scanner

/-- The check of a share, and what is asked after it. -/
theorem paced_submit {lanes : Nat} {base : Word} {item : WorkItem} {share : Share}
    {t : WatchedTranscript} {result : Option Nat}
    (htrace : Routine.Trace (watchedSubmit item share) t result)
    (hnonce : share.nonce ∈ lanesFrom lanes base) :
    Paced lanes (.hashed base) t (.hashed base) ∧ decidedIn t = [] := by
  obtain ⟨t, rfl, hsubmit⟩ := Routine.trace_mark_iff.mp htrace
  rw [submit] at hsubmit
  split at hsubmit
  · obtain ⟨_, t, rfl, hnoted⟩ := Routine.trace_ask_iff.mp hsubmit
    obtain ⟨taken, t, rfl, hoffered⟩ := Routine.trace_ask_iff.mp hnoted
    obtain ⟨rfl, -⟩ := Routine.trace_done_iff.mp hoffered
    exact ⟨.cons (.recheck hnonce) (.cons (.noted ..) (.cons (.offered ..) (.nil _))), rfl⟩
  · obtain ⟨_, t, rfl, hnoted⟩ := Routine.trace_ask_iff.mp hsubmit
    obtain ⟨rfl, -⟩ := Routine.trace_done_iff.mp hnoted
    exact ⟨.cons (.recheck hnonce) (.cons (.noted ..) (.nil _)), rfl⟩

/-- Only a share that is offered and refused stops a scan. -/
theorem refused_of_submit {item : WorkItem} {share : Share} {t : WatchedTranscript}
    (htrace : Routine.Trace (watchedSubmit item share) t none) : Refused t := by
  obtain ⟨t, rfl, hsubmit⟩ := Routine.trace_mark_iff.mp htrace
  rw [submit] at hsubmit
  split at hsubmit
  · obtain ⟨_, t, rfl, hnoted⟩ := Routine.trace_ask_iff.mp hsubmit
    obtain ⟨taken, t, rfl, hoffered⟩ := Routine.trace_ask_iff.mp hnoted
    cases taken with
    | true =>
      obtain ⟨-, hresult⟩ := Routine.trace_done_iff.mp hoffered
      cases hresult
    | false => exact ⟨share, List.mem_cons_of_mem _ (List.mem_cons_of_mem _ List.mem_cons_self)⟩
  · obtain ⟨_, t, rfl, hnoted⟩ := Routine.trace_ask_iff.mp hsubmit
    obtain ⟨-, hresult⟩ := Routine.trace_done_iff.mp hnoted
    cases hresult

/-- A search, watched, that begins at `nonce`. -/
structure Watched (lanes : Nat) (nonce max : Word) (t : WatchedTranscript) (stop : Stop) : Prop where
  first_le : nonce ≤ stop.last
  last_le : stop.last ≤ max
  decided_eq : decidedIn t = noncesBetween nonce.toNat (stop.last.toNat + 1)
  paced : ∃ pace, Paced lanes .rested t pace
  exhausted : Lasting t → stop.ending = .exhausted → stop.last = max
  cancelled : stop.ending = .cancelled → true ∈ looksIn t ∨ Refused t

namespace Watched

variable {lanes : Nat} {nonce max last : Word} {t : WatchedTranscript}

/-- A run that finds nothing, with the look at the flag after it. -/
theorem missed (hrun : Kernel.Watched lanes nonce.toNat max t false last) (hmax : last ≤ max)
    (item : WorkItem) (shares : Nat) (foundAny raised : Bool) :
    Watched lanes nonce max (⟨.inr .call, ()⟩ :: (t ++ [⟨.inl .readFlag, raised⟩]))
      ⟨item, last, if raised then .cancelled else .exhausted, shares, foundAny⟩ where
  first_le := hrun.first_le
  last_le := hmax
  decided_eq := by
    rw [← hrun.decided_eq]
    exact (decidedIn_append t _).trans (List.append_nil _)
  paced := by
    have hcalled {pace : Pace} (h : Paced lanes .rested t pace) {next : Pace}
        (hlook : Pace.Step lanes pace ⟨.inl .readFlag, raised⟩ next) :
        ∃ pace, Paced lanes .rested (⟨.inr .call, ()⟩ :: (t ++ [⟨.inl .readFlag, raised⟩])) pace :=
      ⟨next, .cons .call (h.append (.cons hlook (.nil _)))⟩
    rcases hrun.paced with ⟨base, hpaced, -⟩ | ⟨hpaced, -⟩
    · cases raised with
      | true => exact hcalled hpaced (.raised _)
      | false => exact hcalled hpaced (.lowered (by simp))
    · exact hcalled hpaced (.ignored raised)
  exhausted hlasting hending := by
    obtain rfl : raised = false := by
      cases raised with
      | false => rfl
      | true => cases hending
    rcases hrun.finished rfl with hlast | hraised
    · exact hlast
    · have hlooks : looksIn (⟨.inr .call, ()⟩ :: (t ++ [⟨.inl .readFlag, false⟩])) =
          looksIn t ++ [false] := looksIn_append t _
      rw [Lasting, hlooks] at hlasting
      have hnever := (List.pairwise_append.mp hlasting).2.2 true hraised false List.mem_cons_self
      exact absurd hnever (by decide)
  cancelled hending := by
    have hlooks : looksIn (⟨.inr .call, ()⟩ :: (t ++ [⟨.inl .readFlag, raised⟩])) =
        looksIn t ++ [raised] := looksIn_append t _
    cases raised with
    | true => exact .inl (hlooks ▸ List.mem_append_right _ List.mem_cons_self)
    | false => cases hending

end Watched

/-- A run that has found a share at `last`, and all that is asked about the share. -/
structure Submitted (lanes : Nat) (nonce last : Word) (t : WatchedTranscript) : Prop where
  first_le : nonce ≤ last
  decided_eq : decidedIn t = noncesBetween nonce.toNat (last.toNat + 1)
  paced : ∃ base, Paced lanes .rested t (.hashed base)

namespace Submitted

variable {lanes : Nat} {nonce max last : Word} {item : WorkItem} {t t' : WatchedTranscript}

theorem of_run (hrun : Kernel.Watched lanes nonce.toNat max t true last) {hash : Digest}
    {result : Option Nat} (hsubmit : Routine.Trace (watchedSubmit item ⟨last, hash⟩) t' result) :
    Submitted lanes nonce last (⟨.inr .call, ()⟩ :: (t ++ t')) := by
  rcases hrun.paced with ⟨base, hpaced, hbase⟩ | ⟨-, hfound⟩
  · obtain ⟨hsubmitted, hnone⟩ := paced_submit hsubmit hbase
    have hdecided : decidedIn (⟨.inr .call, ()⟩ :: (t ++ t')) = decidedIn t := by
      refine (decidedIn_append t t').trans ?_
      rw [hnone, List.append_nil]
    exact ⟨hrun.first_le, hdecided.trans hrun.decided_eq, base, .cons .call (hpaced.append hsubmitted)⟩
  · cases hfound

/-- The search ends with the share. -/
theorem ended (h : Submitted lanes nonce last t) (hmax : last ≤ max) {ending : Ending}
    (hexhausted : ending = .exhausted → last = max) (hcancelled : ending = .cancelled → Refused t)
    (item : WorkItem) (shares : Nat) :
    Watched lanes nonce max t ⟨item, last, ending, shares, true⟩ where
  first_le := h.first_le
  last_le := hmax
  decided_eq := h.decided_eq
  paced := h.paced.imp' Pace.hashed fun _ hpaced ↦ hpaced
  exhausted _ hending := hexhausted hending
  cancelled hending := .inr (hcancelled hending)

/-- The flag is seen raised after the share. -/
theorem cancelled (h : Submitted lanes nonce last t) (hmax : last ≤ max) (item : WorkItem)
    (shares : Nat) :
    Watched lanes nonce max (t ++ [⟨.inl .readFlag, true⟩]) ⟨item, last, .cancelled, shares, true⟩ where
  first_le := h.first_le
  last_le := hmax
  decided_eq := by
    rw [decidedIn_append, h.decided_eq]
    exact List.append_nil _
  paced := by
    obtain ⟨base, hpaced⟩ := h.paced
    exact ⟨.halted, hpaced.append (.cons (.raised _) (.nil _))⟩
  exhausted _ hending := by cases hending
  cancelled _ := by
    rw [looksIn_append]
    exact .inl (List.mem_append_right _ List.mem_cons_self)

/-- The search goes on after the share. -/
theorem cons (h : Submitted lanes nonce last t) (hlt : last < max) {stop : Stop}
    (hrest : Watched lanes (last + 1) max t' stop) :
    Watched lanes nonce max (t ++ ⟨.inl .readFlag, false⟩ :: t') stop where
  first_le := UInt32.le_trans (Word.le_add_one h.first_le hlt) hrest.first_le
  last_le := hrest.last_le
  decided_eq := by
    have hnext := Word.toNat_add_one hlt
    have hfirst : nonce.toNat ≤ last.toNat := h.first_le
    have hpassed : (last + 1).toNat ≤ stop.last.toNat := hrest.first_le
    have hlook : decidedIn (⟨.inl .readFlag, false⟩ :: t') = decidedIn t' := rfl
    rw [decidedIn_append, hlook, h.decided_eq, hrest.decided_eq, hnext]
    exact noncesBetween_append (by omega) (by omega)
  paced := by
    obtain ⟨base, hpaced⟩ := h.paced
    obtain ⟨pace, hlater⟩ := hrest.paced
    exact ⟨pace, hpaced.append (.cons (.lowered (by simp)) hlater)⟩
  exhausted hlasting hending := by
    have hlater := (Lasting.of_append hlasting).2
    exact hrest.exhausted (List.pairwise_cons.mp hlater).2 hending
  cancelled hending := by
    rcases hrest.cancelled hending with hraised | ⟨share, hrefused⟩
    · rw [looksIn_append]
      exact .inl (List.mem_append_right _ (List.mem_cons_of_mem _ hraised))
    · exact .inr ⟨share, List.mem_append_right _ (List.mem_cons_of_mem _ hrefused)⟩

end Submitted

theorem watched_search {kernel : Kernel} {max nonce : Word} {item : WorkItem} {shares : Nat}
    {foundAny : Bool} {h : nonce ≤ max} {t : WatchedTranscript} {stop : Stop}
    (htrace : Routine.Trace (watchedSearch kernel max item shares foundAny nonce h) t stop) :
    Watched kernel.lanes nonce max t stop := by
  induction hleft : max.toNat - nonce.toNat using Nat.strong_induction_on
    generalizing item shares foundAny nonce t with
  | h left ih =>
    rw [watchedSearch] at htrace
    obtain ⟨t, rfl, hcalled⟩ := Routine.trace_mark_iff.mp htrace
    obtain ⟨t₁, t₂, ⟨next, run⟩, rfl, hrun, hrest⟩ := Routine.trace_bind_iff.mp hcalled
    have hwatched := Kernel.watched_run hrun
    dsimp only at hrest
    split at hrest
    · rename_i hfound
      rw [hfound] at hwatched
      obtain ⟨t₃, t₄, result, rfl, hsubmit, hafter⟩ := Routine.trace_bind_iff.mp hrest
      have hsubmitted := Submitted.of_run hwatched hsubmit
      rw [← List.append_assoc]
      cases result with
      | none =>
        obtain ⟨rfl, rfl⟩ := Routine.trace_done_iff.mp hafter
        rw [List.append_nil]
        have hrefused := (refused_of_submit hsubmit).append_left (⟨.inr .call, ()⟩ :: t₁)
        exact hsubmitted.ended run.le_last (fun h ↦ by cases h) (fun _ ↦ hrefused) _ _
      | some taken =>
        dsimp only at hafter
        split at hafter
        · rename_i hlast
          obtain ⟨rfl, rfl⟩ := Routine.trace_done_iff.mp hafter
          rw [List.append_nil]
          exact hsubmitted.ended run.le_last (fun _ ↦ hlast) (fun h ↦ by cases h) _ _
        · rename_i hlast
          have hlt : run.last < max := UInt32.lt_of_le_of_ne run.le_last hlast
          obtain ⟨raised, t₅, rfl, hlater⟩ := Routine.trace_ask_iff.mp hafter
          cases raised with
          | true =>
            obtain ⟨rfl, rfl⟩ := Routine.trace_done_iff.mp hlater
            exact hsubmitted.cancelled run.le_last _ _
          | false =>
            have hdecreases := Word.sub_add_one_lt run.first_le hlt
            exact hsubmitted.cons hlt (ih _ (hleft ▸ hdecreases) hlater rfl)
    · rename_i hfound
      obtain ⟨raised, t₃, rfl, hdone⟩ := Routine.trace_ask_iff.mp hrest
      obtain ⟨rfl, rfl⟩ := Routine.trace_done_iff.mp hdone
      rw [Bool.eq_false_iff.mpr hfound] at hwatched
      exact .missed hwatched run.le_last _ _ _ _

variable {scanner : Scanner} {kernel : Kernel} {item other : WorkItem} {ceiling : Nat}
  {report : Report}

theorem card_hashedIn_le {lanes : Nat} {base : Word} {t : WatchedTranscript}
    (h : ∀ nonce ∈ hashedIn lanes t, nonce ∈ lanesFrom lanes base) :
    (hashedIn lanes t).toFinset.card ≤ lanes := by
  have hsubset : (hashedIn lanes t).toFinset ⊆ (lanesFrom lanes base).toFinset := by
    intro nonce hmem
    exact List.mem_toFinset.mpr (h nonce (List.mem_toFinset.mp hmem))
  calc
    _ ≤ (lanesFrom lanes base).toFinset.card := Finset.card_le_card hsubset
    _ ≤ (lanesFrom lanes base).length := List.toFinset_card_le _
    _ = lanes := by simp [lanesFrom]

/-- A watched scan in which the flag has been raised for good after `t` and before `t'`. -/
structure Prompt (kernel : Kernel) (item : WorkItem) (ceiling : Nat) (t t' : WatchedTranscript)
    (other : WorkItem) (report : Report) : Prop where
  heeded : Heeded (t ++ t')
  batches_le : (batchesIn t').length ≤ 1
  /-- However often they are hashed, these are no more nonces than a batch has lanes. -/
  hashed_le : (hashedIn kernel.lanes t').toFinset.card ≤ kernel.lanes
  first_le : item.nextNonce ≤ other.nextNonce
  progress : item.nextNonce < min ceiling UInt32.size → item.nextNonce < other.nextNonce
  decided_eq : decidedIn (t ++ t') = noncesBetween item.nextNonce other.nextNonce
  hashed : ∀ nonce ∈ decidedIn (t ++ t'), nonce ∈ hashedIn kernel.lanes (t ++ t')
  /-- Every accepted nonce that has been passed is offered. -/
  offers_eq : kernel.Exact → item.Consistent →
    (offersIn (askedIn (t ++ t'))).map (·.1) = item.acceptedShares item.nextNonce other.nextNonce
  ended : report.ending = .cancelled ∨
    report.ending = .exhausted ∧ other.nextNonce = max item.nextNonce (min ceiling UInt32.size)
  /-- Nothing but the flag and a refused share ends a scan early. -/
  cancelled : report.ending = .cancelled → true ∈ looksIn t' ∨ Refused (t ++ t')

/-- A watched scan with a kernel and with nonces to try is a watched search. -/
theorem exists_watchedSearch {t : WatchedTranscript} (hkernel : scanner.kernelFor item = some kernel)
    (hlt : item.nextNonce < min ceiling UInt32.size)
    (htrace : Routine.Trace (scanner.watchedScan item ceiling) t (other, report)) :
    ∃ stop, Watched kernel.lanes item.nextNonce.toUInt32 (min ceiling UInt32.size - 1).toUInt32 t stop ∧
      other.nextNonce = stop.last.toNat + 1 ∧ report.ending = stop.ending := by
  unfold watchedScan at htrace
  rw [hkernel] at htrace
  dsimp only at htrace
  rw [dif_pos hlt] at htrace
  obtain ⟨t₁, t₂, stop, rfl, hsearch, hdone⟩ := Routine.trace_bind_iff.mp htrace
  obtain ⟨rfl, hresult⟩ := Routine.trace_done_iff.mp hdone
  obtain ⟨rfl, rfl⟩ := Prod.mk.inj hresult
  rw [List.append_nil]
  exact ⟨stop, watched_search hsearch, rfl, rfl⟩

/-- With no nonce left below the ceiling, nothing is asked and nothing is hashed. -/
theorem trace_watchedScan_of_idle {t : WatchedTranscript} (hkernel : scanner.kernelFor item = some kernel)
    (hle : min ceiling UInt32.size ≤ item.nextNonce)
    (htrace : Routine.Trace (scanner.watchedScan item ceiling) t (other, report)) :
    t = [] ∧ other = item ∧ report = .idle := by
  unfold watchedScan at htrace
  rw [hkernel] at htrace
  dsimp only at htrace
  rw [dif_neg (Nat.not_lt.mpr hle)] at htrace
  obtain ⟨rfl, hresult⟩ := Routine.trace_done_iff.mp htrace
  exact ⟨rfl, Prod.mk.inj hresult⟩

/-- What a scan offers, watched or not. -/
theorem offersIn_watchedScan {t : WatchedTranscript} (hkernel : scanner.kernelFor item = some kernel)
    (hexact : kernel.Exact) (hconsistent : item.Consistent)
    (htrace : Routine.Trace (scanner.watchedScan item ceiling) t (other, report)) :
    (offersIn (askedIn t)).map (·.1) = item.acceptedShares item.nextNonce other.nextNonce := by
  have hscan := Routine.trace_erase_iff.mpr ⟨t, rfl, htrace⟩
  rw [erase_watchedScan] at hscan
  by_cases hlt : item.nextNonce < min ceiling UInt32.size
  · exact (scanned_scan hkernel hexact hconsistent hlt hscan).offers_eq
  · obtain ⟨rfl, -, hnone, -⟩ := trace_scan_of_idle (.inr (Nat.le_of_not_lt hlt)) hscan
    rw [hnone, other.acceptedShares_self]
    rfl

/-- Whenever the flag is raised for good, at most one batch is hashed afterwards.  The transcript may be split
anywhere between the last look that found the flag lowered and the first that found it raised, so the batch in
the middle of which it was raised is counted as well. -/
theorem watchedScan_prompt (hkernel : scanner.kernelFor item = some kernel) :
    (scanner.watchedScan item ceiling).erase = scanner.scan item ceiling ∧
      ∀ (t t' : WatchedTranscript) (other : WorkItem) (report : Report),
        Routine.Trace (scanner.watchedScan item ceiling) (t ++ t') (other, report) →
        (∀ raised ∈ looksIn t, raised = false) → (∀ raised ∈ looksIn t', raised = true) →
          Prompt kernel item ceiling t t' other report := by
  refine ⟨erase_watchedScan scanner item ceiling, ?_⟩
  intro t t' other report htrace hlowered hraised
  have hoffers (hexact : kernel.Exact) (hconsistent : item.Consistent) :=
    offersIn_watchedScan hkernel hexact hconsistent htrace
  by_cases hlt : item.nextNonce < min ceiling UInt32.size
  · obtain ⟨stop, hwatched, hnext, hending⟩ := exists_watchedSearch hkernel hlt htrace
    obtain ⟨pace, hpaced⟩ := hwatched.paced
    obtain ⟨between, -, hafter⟩ := hpaced.exists_of_append
    obtain ⟨⟨base, hhashed⟩, hbatches⟩ := hafter.hashedIn_of_raised hraised
    obtain ⟨hfirst, hmax⟩ := toNat_bounds hlt
    have hpassed : item.nextNonce.toUInt32.toNat ≤ stop.last.toNat := hwatched.first_le
    exact {
      heeded := hpaced.heeded
      batches_le := hbatches
      hashed_le := card_hashedIn_le hhashed
      first_le := by omega
      progress := fun _ ↦ by omega
      decided_eq := by rw [hwatched.decided_eq, hfirst, hnext]
      hashed := by
        intro nonce hmem
        rcases hpaced.hashedIn_of_decidedIn hmem with hhashed | ⟨_, hrested, -⟩
        · exact hhashed
        · cases hrested
      offers_eq := hoffers
      ended := by
        rw [hending]
        cases hstop : stop.ending with
        | cancelled => exact .inl rfl
        | exhausted =>
          have hlast := hwatched.exhausted (lasting_append hlowered hraised) hstop
          refine .inr ⟨rfl, ?_⟩
          rw [hnext, hlast]
          omega
      cancelled := by
        intro hcancelled
        have hseen := hwatched.cancelled (hending.symm.trans hcancelled)
        rw [looksIn_append] at hseen
        refine hseen.imp_left fun hraised ↦ ?_
        rcases List.mem_append.mp hraised with hbefore | hafter
        · cases hlowered true hbefore
        · exact hafter }
  · have hidle := trace_watchedScan_of_idle hkernel (Nat.le_of_not_lt hlt) htrace
    obtain ⟨hnone, rfl, rfl⟩ := hidle
    obtain ⟨rfl, rfl⟩ := List.append_eq_nil_iff.mp hnone
    exact {
      heeded := fun before after h ↦ by simp at h
      batches_le := Nat.zero_le 1
      hashed_le := Nat.zero_le _
      first_le := Nat.le_refl _
      progress := fun h ↦ absurd h hlt
      decided_eq := (noncesBetween_self _).symm
      hashed := fun nonce hmem ↦ absurd hmem List.not_mem_nil
      offers_eq := hoffers
      ended := .inr ⟨rfl, by omega⟩
      cancelled := fun h ↦ by cases h }

end Scanner

namespace Scan.World

variable {flag : CancelFlag} {sink : Sink} {world world' : World} {t : WatchedTranscript}

/-- How a world answers a watched scan. -/
def watchedAnswer (flag : CancelFlag) (sink : Sink) :
    (e : Event ⊕ Mark) → StateM World (Sum.elim Event.Answer (fun _ ↦ Unit) e)
  | .inl e => answer flag sink e
  | .inr _ => pure ()

/-- A world does not lower a flag. -/
theorem isRaised_answer (h : world.flags.isRaised flag = true) (e : Event) :
    ((answer flag sink e).run world).2.flags.isRaised flag = true := by
  cases e with
  | readFlag => exact h
  | note line => exact h
  | offer share =>
    change FlagTable.isRaised (if _ then _ else _) flag = true
    split
    · exact List.contains_iff_mem.mpr List.mem_cons_self
    · exact h

theorem looksIn_of_raised (h : world.flags.isRaised flag = true)
    (hanswered : Routine.Answered (watchedAnswer flag sink) world t world') :
    ∀ raised ∈ looksIn t, raised = true := by
  induction hanswered with
  | nil world => exact fun _ hmem ↦ absurd hmem List.not_mem_nil
  | cons e _ ih =>
    cases e with
    | inl e =>
      have hlater := ih (isRaised_answer h e)
      cases e with
      | readFlag => exact List.forall_mem_cons.mpr ⟨h, hlater⟩
      | offer share => exact hlater
      | note line => exact hlater
    | inr m => exact ih h

/-- In a world the flag is raised for good, if it is raised at all. -/
theorem exists_split_of_answered
    (hanswered : Routine.Answered (watchedAnswer flag sink) world t world') :
    ∃ before after, t = before ++ after ∧ (∀ raised ∈ looksIn before, raised = false) ∧
      ∀ raised ∈ looksIn after, raised = true := by
  induction hanswered with
  | nil world => exact ⟨[], [], rfl, fun _ hmem ↦ absurd hmem List.not_mem_nil, fun _ hmem ↦
      absurd hmem List.not_mem_nil⟩
  | @cons world world' e t hrest ih =>
    cases hflag : world.flags.isRaised flag with
    | true =>
      exact ⟨[], _, rfl, fun _ hmem ↦ absurd hmem List.not_mem_nil,
        looksIn_of_raised hflag (.cons e hrest)⟩
    | false =>
      obtain ⟨before, after, rfl, hlowered, hraised⟩ := ih
      refine ⟨_ :: before, after, rfl, ?_, hraised⟩
      cases e with
      | inl e =>
        cases e with
        | readFlag => exact List.forall_mem_cons.mpr ⟨hflag, hlowered⟩
        | offer share => exact hlowered
        | note line => exact hlowered
      | inr m => exact hlowered

end Scan.World

namespace Scanner

/-- In every world a watched scan comes to an end, with the flag raised for good at some point or not at all. -/
theorem exists_trace_watchedScan (scanner : Scanner) (sink : Sink) (item : WorkItem) (ceiling : Nat)
    (world : World) :
    ∃ (t t' : WatchedTranscript) (other : WorkItem) (report : Report),
      Routine.Trace (scanner.watchedScan item ceiling) (t ++ t') (other, report) ∧
        (∀ raised ∈ looksIn t, raised = false) ∧ ∀ raised ∈ looksIn t', raised = true := by
  obtain ⟨t, htrace, hanswered⟩ := Routine.exists_trace_run (World.watchedAnswer item.cancel sink)
    (scanner.watchedScan item ceiling) world
  obtain ⟨before, after, rfl, hlowered, hraised⟩ := World.exists_split_of_answered hanswered
  exact ⟨before, after, _, _, htrace, hlowered, hraised⟩

/-- Batches of thirty-two nonces that are all accepted, and a sink that raises the flag with the third share. -/
theorem exists_prompt_zeros :
    ∃ (t t' : WatchedTranscript) (other : WorkItem) (report : Report),
      Prompt (.sha256d .quadBy8) (.ofHeader ⟨Vector.replicate 80 0⟩ .max ⟨0⟩) 40 t t' other report ∧
        (offersIn (askedIn (t ++ t'))).map (·.1) =
          WorkItem.acceptedShares (.ofHeader ⟨Vector.replicate 80 0⟩ .max ⟨0⟩) 0 other.nextNonce := by
  obtain ⟨t, t', other, report, htrace, hlowered, hraised⟩ :=
    exists_trace_watchedScan (ofAlgorithm ⟨fun _ ↦ true, 1⟩ .altivec)
      (fun offers _ ↦ ⟨true, offers.length == 2⟩) (.ofHeader ⟨Vector.replicate 80 0⟩ .max ⟨0⟩) 40
      ⟨.empty, [], []⟩
  have hprompt := (watchedScan_prompt rfl).2 t t' other report htrace hlowered hraised
  exact ⟨t, t', other, report, hprompt,
    hprompt.offers_eq (Hasher.exact_ofLanes Quad (by decide) (by decide))
      (WorkItem.consistent_ofHeader _ _ _)⟩

end Scanner

end Hashwork
