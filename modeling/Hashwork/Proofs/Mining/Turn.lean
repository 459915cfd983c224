import Hashwork.Mining.Worker
import Hashwork.Proofs.Work.Reachable

/-!
# One turn of a worker

Whatever a worker is answered in a turn, it sends the accepted shares of the nonces that it passes.  If its
shares are taken and the flag is never lowered, the turn passes a whole piece, unless the flag was raised.
-/

namespace Hashwork

/-- What a scan saw when it looked at the flag. -/
def Scan.flagsIn (t : Transcript) : List Bool :=
  t.filterMap fun
    | ⟨.readFlag, raised⟩ => some raised
    | _ => none

@[simp]
theorem Scan.flagsIn_append (t t' : Transcript) : flagsIn (t ++ t') = flagsIn t ++ flagsIn t' :=
  List.filterMap_append

namespace Mining.Worker

/-- What a worker asked and was answered. -/
abbrev Transcript := List (Routine.Exchange Event.Answer)

/-- The shares sent, each with whether it was taken. -/
def sendsIn (t : Transcript) : List (Share × Bool) :=
  t.filterMap fun
    | ⟨.send share, taken⟩ => some (share, taken)
    | _ => none

/-- What the worker saw when it looked at the flag. -/
def flagsIn (t : Transcript) : List Bool :=
  t.filterMap fun
    | ⟨.readFlag, raised⟩ => some raised
    | _ => none

@[simp]
theorem sendsIn_append (t t' : Transcript) : sendsIn (t ++ t') = sendsIn t ++ sendsIn t' :=
  List.filterMap_append

@[simp]
theorem flagsIn_append (t t' : Transcript) : flagsIn (t ++ t') = flagsIn t ++ flagsIn t' :=
  List.filterMap_append

/-- All shares were taken, and the flag was never seen lowered after it had been seen raised. -/
structure Steady (t : Transcript) : Prop where
  taken : ∀ send ∈ sendsIn t, send.2 = true
  kept : (flagsIn t).Pairwise (· ≤ ·)

/-- What a turn comes to, whatever it is answered. -/
structure Turned (finish : Nat) (item : WorkItem) (t : Transcript) (turn : Turn) : Prop where
  template_eq : turn.item.template = item.template
  le : item.nextNonce ≤ turn.item.nextNonce
  le_finish : item.nextNonce ≤ finish →
    turn.item.nextNonce ≤ min (item.nextNonce + pieceLength) finish
  sends_eq : (sendsIn t).map (·.1) = item.acceptedShares item.nextNonce turn.item.nextNonce
  again_lt : ∀ other, turn = .again other → item.nextNonce < other.nextNonce
  again_eq : ∀ other, turn = .again other → Steady t →
    other.nextNonce = min (item.nextNonce + pieceLength) finish
  last : ∀ other, turn = .last other → Steady t → finish ≤ other.nextNonce ∨ true ∈ flagsIn t

/-- The exchanges of a scan as its worker sees them. -/
def ofScan (asked : List ((e : Scan.Event) × (Event.ofScan e).Answer)) : Transcript :=
  asked.map fun x ↦ ⟨Event.ofScan x.1, x.2⟩

/-- The same exchanges as the scan sees them. -/
def toScan (asked : List ((e : Scan.Event) × (Event.ofScan e).Answer)) : Scan.Transcript :=
  asked.map fun x ↦ ⟨x.1, answerToScan x.1 x.2⟩

section Exchanges

variable (asked : List ((e : Scan.Event) × (Event.ofScan e).Answer))

theorem sendsIn_ofScan : sendsIn (ofScan asked) = Scan.offersIn (toScan asked) := by
  induction asked with
  | nil => rfl
  | cons x asked ih =>
    obtain ⟨e, answer⟩ := x
    cases e with
    | readFlag => exact ih
    | offer share => exact congrArg ((share, answer) :: ·) ih
    | note line => exact ih

theorem flagsIn_ofScan : flagsIn (ofScan asked) = Scan.flagsIn (toScan asked) := by
  induction asked with
  | nil => rfl
  | cons x asked ih =>
    obtain ⟨e, answer⟩ := x
    cases e with
    | readFlag => exact congrArg (answer :: ·) ih
    | offer share => exact ih
    | note line => exact ih

/-- A turn that has seen the flag lowered, scans a piece, and adds to the tally. -/
def scanning (nonces : Nat) : Transcript :=
  ⟨.readFlag, false⟩ :: (ofScan asked ++ [⟨.tally nonces, ()⟩])

theorem sendsIn_scanning (nonces : Nat) :
    sendsIn (scanning asked nonces) = Scan.offersIn (toScan asked) := by
  rw [← sendsIn_ofScan]
  exact (sendsIn_append _ _).trans (List.append_nil _)

theorem flagsIn_scanning (nonces : Nat) :
    flagsIn (scanning asked nonces) = false :: Scan.flagsIn (toScan asked) := by
  rw [← flagsIn_ofScan]
  exact congrArg (false :: ·) ((flagsIn_append _ _).trans (List.append_nil _))

end Exchanges

section Turns

variable {scanner : Scanner} {kernel : Kernel} {finish : Nat} {item other : WorkItem}
  {t : Transcript} {report : Scan.Report} {turn : Turn}

/-- A turn that does not scan: the flag is raised, or nothing is left. -/
theorem turned_idle {cancelled : Bool} (h : (cancelled || finish ≤ item.nextNonce) = true) :
    Turned finish item [⟨.readFlag, cancelled⟩] (.last item) where
  template_eq := rfl
  le := Nat.le_refl _
  le_finish hle := Nat.le_min.mpr ⟨Nat.le_add_right _ _, hle⟩
  sends_eq := (item.acceptedShares_self _).symm
  again_lt := nofun
  again_eq := nofun
  last other heq _ := by
    cases heq
    cases cancelled with
    | true => exact .inr List.mem_cons_self
    | false => exact .inl (of_decide_eq_true h)

section Scanned

variable {asked : List ((e : Scan.Event) × (Event.ofScan e).Answer)}
  (h : Scanner.Scanned item (min (item.nextNonce + pieceLength) finish) (toScan asked) other report)

include h

theorem template_scanned : other.template = item.template := by
  rw [h.item_eq, WorkItem.template_withNextNonce, WorkItem.template_record]

theorem turned_exhausted (hending : report.ending = .exhausted) :
    Turned finish item (scanning asked report.processed) (.again other) where
  template_eq := template_scanned h
  le := Nat.le_of_lt h.lt_finish
  le_finish _ := h.finish_le
  sends_eq := by rw [sendsIn_scanning, h.offers_eq, Turn.item]
  again_lt := by
    rintro _ ⟨⟩
    exact h.lt_finish
  again_eq := by
    rintro _ ⟨⟩ hsteady
    -- Short of its ceiling a scan ends as exhausted only if the flag was raised and lowered again.
    rcases h.exhausted hending with hfinish | ⟨t', ht'⟩
    · exact hfinish
    · have hkept := hsteady.kept
      rw [flagsIn_scanning, ht', Scan.flagsIn_append, List.pairwise_cons, List.pairwise_append] at hkept
      exact absurd hkept.2.2.1 (by decide)
  last := nofun

theorem turned_cancelled (hending : report.ending = .cancelled) :
    Turned finish item (scanning asked report.processed) (.last other) where
  template_eq := template_scanned h
  le := Nat.le_of_lt h.lt_finish
  le_finish _ := h.finish_le
  sends_eq := by rw [sendsIn_scanning, h.offers_eq, Turn.item]
  again_lt := nofun
  again_eq := nofun
  last := by
    rintro _ ⟨⟩ hsteady
    right
    rcases h.cancelled hending with ⟨offer, hmem, hrefused⟩ | hraised
    · have htaken := hsteady.taken offer (sendsIn_scanning asked _ ▸ hmem)
      cases hrefused.symm.trans htaken
    · rw [flagsIn_scanning]
      exact List.mem_cons_of_mem _ (List.mem_filterMap.mpr ⟨_, hraised, rfl⟩)

end Scanned

/-- A turn does nothing, or it scans a piece and tallies what the scan reports. -/
theorem idle_or_scanned (hkernel : scanner.kernelFor item = some kernel) (hexact : kernel.Exact)
    (hconsistent : item.Consistent) (hfinish : finish ≤ UInt32.size)
    (htrace : Routine.Trace (Worker.turn scanner finish item) t turn) :
    (∃ cancelled, (cancelled || finish ≤ item.nextNonce) = true ∧ t = [⟨.readFlag, cancelled⟩] ∧
      turn = .last item) ∨
    ∃ asked other report,
      Scanner.Scanned item (min (item.nextNonce + pieceLength) finish) (toScan asked) other report ∧
        t = scanning asked report.processed ∧
          turn = if report.ending = .cancelled then .last other else .again other := by
  obtain ⟨cancelled, t', rfl, hrest⟩ := Routine.trace_ask_iff.mp htrace
  by_cases hidle : (cancelled || finish ≤ item.nextNonce) = true
  · rw [if_pos hidle] at hrest
    obtain ⟨rfl, rfl⟩ := Routine.trace_done_iff.mp hrest
    exact .inl ⟨cancelled, hidle, rfl, rfl⟩
  · rw [if_neg hidle] at hrest
    obtain ⟨rfl, hlt⟩ : cancelled = false ∧ item.nextNonce < finish := by simpa using hidle
    obtain ⟨_, _, ⟨other, report⟩, rfl, hscan, hafter⟩ := Routine.trace_bind_iff.mp hrest
    obtain ⟨asked, rfl, hasked⟩ := Routine.trace_of_embed hscan
    obtain ⟨_, _, rfl, hdone⟩ := Routine.trace_ask_iff.mp hafter
    obtain ⟨rfl, rfl⟩ := Routine.trace_done_iff.mp hdone
    have hpiece : min (min (item.nextNonce + pieceLength) finish) UInt32.size =
        min (item.nextNonce + pieceLength) finish :=
      Nat.min_eq_left ((Nat.min_le_right ..).trans hfinish)
    have hpassed : item.nextNonce < min (item.nextNonce + pieceLength) finish :=
      Nat.lt_min.mpr ⟨Nat.lt_add_of_pos_right (by decide), hlt⟩
    have hscanned := Scanner.scanned_scan hkernel hexact hconsistent (by rwa [hpiece]) hasked
    rw [hpiece] at hscanned
    exact .inr ⟨asked, other, report, hscanned, rfl, rfl⟩

theorem turned_of_trace (hkernel : scanner.kernelFor item = some kernel) (hexact : kernel.Exact)
    (hconsistent : item.Consistent) (hfinish : finish ≤ UInt32.size)
    (htrace : Routine.Trace (Worker.turn scanner finish item) t turn) : Turned finish item t turn := by
  rcases idle_or_scanned hkernel hexact hconsistent hfinish htrace with
    ⟨cancelled, hidle, rfl, rfl⟩ | ⟨asked, other, report, hscanned, rfl, rfl⟩
  · exact turned_idle hidle
  · cases hending : report.ending with
    | exhausted => exact turned_exhausted hscanned hending
    | cancelled => exact turned_cancelled hscanned hending

end Turns

end Mining.Worker

end Hashwork
