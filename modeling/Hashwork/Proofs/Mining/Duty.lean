import Hashwork.Proofs.Mining.Ledger

/-!
# What the workers have done

Whenever its ledger is looked at, a worker has been through the pieces of its portion in order, and has sent
the accepted shares of the nonces that it has passed, with those of the piece that it is scanning.  It ends
where its portion does, unless the flag is raised.
-/

namespace Hashwork

namespace Mining

open Worker (Given Steady Turned flagsIn sendsIn)

section Attention

variable {flag : Bool} {t : Worker.Transcript} {e : Worker.Event} {answer : e.Answer}

theorem map_sendsIn_singleton (e : Worker.Event) (answer : e.Answer) :
    (sendsIn [⟨e, answer⟩]).map (·.1) = e.shares := by
  cases e <;> rfl

/-- What a crew has answered a worker so far. -/
structure Attended (flag : Bool) (t : Worker.Transcript) : Prop extends Steady t where
  seen : true ∈ flagsIn t → flag = true

theorem Attended.nil : Attended flag [] :=
  ⟨⟨List.forall_mem_nil _, List.Pairwise.nil⟩, fun hmem ↦ absurd hmem List.not_mem_nil⟩

theorem taken_of_given (hgiven : Given flag e answer) :
    ∀ send ∈ sendsIn [⟨e, answer⟩], send.2 = true := by
  cases e with
  | send share => exact List.forall_mem_singleton.mpr hgiven
  | _ => exact List.forall_mem_nil _

theorem eq_flag_of_given (hgiven : Given flag e answer) :
    ∀ raised ∈ flagsIn [⟨e, answer⟩], raised = flag := by
  cases e with
  | readFlag => exact List.forall_mem_singleton.mpr hgiven
  | _ => exact List.forall_mem_nil _

theorem Attended.concat (h : Attended flag t) (hgiven : Given flag e answer) :
    Attended flag (t ++ [⟨e, answer⟩]) := by
  have hlatest := eq_flag_of_given hgiven
  have hpast : ∀ raised ∈ flagsIn t, raised ≤ flag := by
    intro raised hmem
    cases raised with
    | false => exact Bool.false_le flag
    | true => exact (h.seen hmem).symm ▸ Bool.le_refl true
  refine ⟨⟨?_, ?_⟩, ?_⟩
  · rw [Worker.sendsIn_append]
    exact List.forall_mem_append.mpr ⟨h.taken, taken_of_given hgiven⟩
  · rw [Worker.flagsIn_append, List.pairwise_append]
    refine ⟨h.kept, List.pairwise_of_forall_mem_list ?_, ?_⟩
    · intro raised hmem raised' hmem'
      rw [hlatest raised hmem, hlatest raised' hmem']
    · intro raised hmem raised' hmem'
      rw [hlatest raised' hmem']
      exact hpast raised hmem
  · rw [Worker.flagsIn_append, List.mem_append]
    rintro (hmem | hmem)
    · exact h.seen hmem
    · exact (hlatest true hmem).symm

end Attention

/-- There is an exact kernel for the item of a job, and the item is as its header says. -/
structure Job.Served (job : Job) : Prop where
  exists_kernel : ∃ kernel, job.miner.scanner.kernelFor job.item = some kernel ∧ kernel.Exact
  consistent : job.item.Consistent

theorem Job.served {job : Job} (hreachable : job.item.Reachable) (hbuilt : job.miner.scanner.Built)
    (hkernel : (job.miner.scanner.kernelFor job.item).isSome = true) : job.Served := by
  obtain ⟨kernel, hkernel⟩ := Option.isSome_iff_exists.mp hkernel
  exact ⟨⟨kernel, hkernel, hbuilt.exact hkernel⟩, hreachable.consistent⟩

/-- The portion of worker `i`. -/
abbrev Job.portion (job : Job) (i : Nat) : Portion :=
  Mining.portion job.miner.threads i

/-- What worker `i` has done, for the state that it is in. -/
inductive Duty (job : Job) (i : Nat) (flag : Bool) (passed : List Portion) (sent : List Share)
    (reached : Nat) : WorkerState → Prop
  | working {item : WorkItem} {t : Worker.Transcript} {rest : Worker.Working Worker.Turn} (k : Nat)
    (htemplate : item.template = job.item.template) (hnext : item.nextNonce = reached)
    (hleads : Routine.Leads (Worker.turn job.miner.scanner (job.portion i).finish item) t rest)
    (hattended : Attended flag t) (hpassed : passed = (List.range k).map (job.portion i).piece)
    (hreached : reached = min ((job.portion i).first + k * pieceLength) (job.portion i).finish)
    (hsent : sent =
      job.item.acceptedShares (job.portion i).first reached ++ (sendsIn t).map (·.1)) :
    Duty job i flag passed sent reached (.working rest)
  | ended {item : WorkItem} (hwalked : Walked (job.portion i) flag passed reached)
    (hsent : sent = job.item.acceptedShares (job.portion i).first reached)
    (hfinished : flag = false → reached = (job.portion i).finish) :
    Duty job i flag passed sent reached (.ended item)

section Turns

variable {job : Job} {flag : Bool} {passed : List Portion}
  {sent : List Share} {reached i : Nat}

theorem Duty.raise {flag' : Bool} {worker : WorkerState} (h : Duty job i flag passed sent reached worker)
    (hflag : flag = true → flag' = true) : Duty job i flag' passed sent reached worker := by
  cases h with
  | working k htemplate hnext hleads hattended hpassed hreached hsent =>
    have hattended' : Attended flag' _ := ⟨hattended.toSteady, hflag ∘ hattended.seen⟩
    exact .working k htemplate hnext hleads hattended' hpassed hreached hsent
  | ended hwalked hsent hfinished =>
    refine .ended ?_ hsent fun hlowered ↦ hfinished ?_
    · cases hwalked with
      | whole k => exact .whole k
      | cut k hraised hlt hlt' => exact .cut k (hflag hraised) hlt hlt'
    · cases flag with
      | false => rfl
      | true => exact (hflag rfl).symm.trans hlowered

theorem Duty.ask {e : Worker.Event} {next : e.Answer → Worker.Working Worker.Turn} {answer : e.Answer}
    (h : Duty job i flag passed sent reached (.working (.ask e next))) (hgiven : Given flag e answer) :
    Duty job i flag passed (sent ++ e.shares) reached (.working (next answer)) := by
  cases h with
  | working k htemplate hnext hleads hattended hpassed hreached hsent =>
    refine .working k htemplate hnext (hleads.step answer) (hattended.concat hgiven) hpassed hreached ?_
    rw [hsent, Worker.sendsIn_append, List.map_append, map_sendsIn_singleton, List.append_assoc]

theorem turned_of_template {item : WorkItem} {t : Worker.Transcript} {turn : Worker.Turn}
    (hi : i < job.miner.threads) (hserved : job.Served) (htemplate : item.template = job.item.template)
    (htrace : Routine.Trace (Worker.turn job.miner.scanner (job.portion i).finish item) t turn) :
    Turned (job.portion i).finish item t turn := by
  obtain ⟨kernel, hkernel, hexact⟩ := hserved.exists_kernel
  refine Worker.turned_of_trace ?_ hexact ?_ (portion_finish_le hi) htrace
  · exact (Scanner.kernelFor_eq_of_template htemplate _).trans hkernel
  · exact (WorkItem.consistent_iff_of_template htemplate).mpr hserved.consistent

theorem Duty.turn {turn : Worker.Turn} (h : Duty job i flag passed sent reached (.working (.done turn)))
    (hi : i < job.miner.threads) (hserved : job.Served) :
    Duty job i flag
      (if reached < turn.item.nextNonce then passed ++ [⟨reached, turn.item.nextNonce⟩] else passed)
      sent turn.item.nextNonce (job.after i turn) := by
  cases h with
  | @working item t _ k htemplate hnext hleads hattended hpassed hreached hsent =>
    have hturned := turned_of_template hi hserved htemplate hleads.trace
    have hfirst : (job.portion i).first ≤ reached :=
      hreached ▸ Nat.le_min.mpr ⟨Nat.le_add_right _ _, portion_first_le_finish hi⟩
    have hwithin : reached ≤ (job.portion i).finish := hreached ▸ Nat.min_le_right ..
    have hle : reached ≤ turn.item.nextNonce := hnext ▸ hturned.le
    have hstop := hturned.le_finish (hnext ▸ hwithin)
    rw [hnext] at hstop
    have hsent' : sent = job.item.acceptedShares (job.portion i).first turn.item.nextNonce := by
      rw [hsent, hturned.sends_eq, hnext, WorkItem.acceptedShares_eq_of_template htemplate,
        job.item.acceptedShares_append hfirst hle]
    cases turn with
    | again other =>
      have hlt : reached < other.nextNonce := hnext ▸ hturned.again_lt other rfl
      have heq : other.nextNonce = min (reached + pieceLength) (job.portion i).finish :=
        hnext ▸ hturned.again_eq other rfl hattended.toSteady
      have hpiece := piece_eq hreached (hlt.trans_le (heq ▸ Nat.min_le_right ..))
      refine .working (k + 1) (hturned.template_eq.trans htemplate) rfl .refl .nil ?_ ?_ ?_
      · have hsucc := map_piece_succ (job.portion i) k
        rw [hpiece, ← hpassed, ← heq] at hsucc
        exact (if_pos hlt).trans hsucc
      · exact heq.trans (congrArg Portion.finish hpiece).symm
      · exact hsent'.trans (List.append_nil _).symm
    | last other =>
      have hlast := hturned.last other rfl hattended.toSteady
      refine .ended ?_ hsent' ?_
      · rw [hpassed]
        exact Walked.last hreached hle hstop (hlast.imp_right hattended.seen)
      · intro hlowered
        apply Nat.le_antisymm (hstop.trans (Nat.min_le_right ..))
        apply hlast.resolve_right
        intro hraised
        cases hlowered.symm.trans (hattended.seen hraised)

/-- Each turn but the last passes some nonce. -/
theorem Duty.reached_lt {other : WorkItem}
    (h : Duty job i flag passed sent reached (.working (.done (.again other))))
    (hi : i < job.miner.threads) (hserved : job.Served) : reached < other.nextNonce := by
  cases h with
  | working k htemplate hnext hleads =>
    have hturned := turned_of_template hi hserved htemplate hleads.trace
    exact hnext ▸ hturned.again_lt other rfl

theorem Duty.walked {worker : WorkerState} (h : Duty job i flag passed sent reached worker) :
    Walked (job.portion i) flag passed reached := by
  cases h with
  | working k _ _ _ _ hpassed hreached =>
    rw [hpassed, hreached]
    exact .whole k
  | ended hwalked => exact hwalked

/-- What a worker has sent is where its portion begins. -/
theorem Duty.sent_starts {worker : WorkerState} (h : Duty job i flag passed sent reached worker)
    (hi : i < job.miner.threads) (hserved : job.Served) :
    sent <+: job.item.acceptedShares (job.portion i).first (job.portion i).finish := by
  have hfirst := h.walked.first_le (portion_first_le_finish hi)
  cases h with
  | @working item t rest k htemplate hnext hleads hattended hpassed hreached hsent =>
    have hanswer (e : Worker.Event) : Nonempty e.Answer := by
      cases e with
      | readFlag | send share => exact ⟨true⟩
      | note line | tally nonces => exact ⟨()⟩
    -- Some answers bring the turn to its end, and what it sends then begins with what it has sent by now.
    obtain ⟨t', turn, hrest⟩ := Routine.exists_trace hanswer rest
    have hturned := turned_of_template hi hserved htemplate (hleads.trace_append hrest)
    have hle : reached ≤ turn.item.nextNonce := hnext ▸ hturned.le
    have hstop : turn.item.nextNonce ≤ (job.portion i).finish :=
      (hturned.le_finish (hnext ▸ hreached ▸ Nat.min_le_right ..)).trans (Nat.min_le_right ..)
    have hturn : sent ++ (sendsIn t').map (·.1) =
        job.item.acceptedShares (job.portion i).first turn.item.nextNonce := by
      rw [hsent, List.append_assoc, ← List.map_append, ← Worker.sendsIn_append, hturned.sends_eq, hnext,
        WorkItem.acceptedShares_eq_of_template htemplate, job.item.acceptedShares_append hfirst hle]
    rw [← job.item.acceptedShares_append (hfirst.trans hle) hstop, ← hturn, List.append_assoc]
    exact List.prefix_append ..
  | ended hwalked hsent => exact ⟨_, hsent ▸ job.item.acceptedShares_append hfirst hwalked.le_finish⟩

end Turns

end Mining

end Hashwork
