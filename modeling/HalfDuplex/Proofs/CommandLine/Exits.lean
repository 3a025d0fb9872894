import HalfDuplex.CommandLine.Run
import HalfDuplex.Proofs.Batch.Outcomes
import HalfDuplex.Proofs.CommandLine.Scanning
import HalfDuplex.Proofs.Trace.Words

/-!
# How a run of the program ends

Whatever the arguments are and in whatever order the workers take their steps, a run
comes to an end. It neither crashes nor finds its own trace at fault, and it ends well
exactly if the arguments first ask for help, or if none of them is bad and they ask
for no more tasks than a batch may have.
-/

namespace HalfDuplex.CommandLine

open Batch Utf8

variable {args : List (List UInt8)} {o : Options} {b : Bus} {r : Finished} {e : Ending}
  {n : Nat}

/-- A run can end like this, in some order of the steps of the workers. The counters of
the check of the trace are words; on a fresh bus nothing has been counted before the
batch, so there is nothing to go wrong in taking that off for the report. -/
inductive Ends (args : List (List UInt8)) : Ending → Prop where
  | help : scan args = .error .help → Ends args .help
  | refused {refusal : Refusal} : scan args = .error (.refused refusal) →
    Ends args (.refused refusal)
  | unbuilt {o : Options} {f : Bus.Fault} : scan args = .ok o → Bus.create o.bus = .error f →
    Ends args (.crashed (.bus f))
  | ran {o : Options} {b : Bus} {r : Finished} : scan args = .ok o → Bus.create o.bus = .ok b →
    Comes b o.counts o.batch o.batch.source r → Ends args (endingOf o.bus r)
  | miscounted {o : Options} {b : Bus} {r : Finished} {report : Report} {events : List Event} :
    scan args = .ok o → Bus.create o.bus = .ok b → Comes b o.counts o.batch o.batch.source r →
    r.result = .ok (.ok report) → o.bus.recordTrace = true →
    r.bus.takeTrace.answer = .ok events → Trace.checkInWords o.bus.capacity events = none →
    Ends args (.crashed (.bus .overflow))

/-- A run can fail to come to an end. -/
def Diverges (args : List (List UInt8)) : Prop :=
  ∃ o b, scan args = .ok o ∧ Bus.create o.bus = .ok b ∧
    Lingers b o.counts o.batch o.batch.source

theorem Usable.moderate (h : Usable o) : Moderate o.batch := by
  obtain ⟨-, -, htasks, hticks⟩ := h
  constructor <;> simp only [htasks, hticks] <;> decide

theorem Usable.create_eq (h : Usable o) : Bus.create o.bus = .ok (Bus.fresh o.bus) := by
  rw [Bus.create, Bus.Config.validate, if_neg h.capacity_pos.ne']
  rfl

theorem Usable.built (h : Usable o) (hscan : scan args = .ok o) {o' : Options}
    {built : Except Bus.Fault Bus} (hscan' : scan args = .ok o')
    (hcreate : Bus.create o'.bus = built) : o = o' ∧ built = .ok (Bus.fresh o.bus) := by
  rw [hscan] at hscan'
  cases hscan'
  exact ⟨rfl, hcreate.symm.trans h.create_eq⟩

theorem ample_source (o : Options) : Ample o.counts o.batch.source :=
  ⟨Durations.live_ofSeed o.batch.seed, Durations.hasRoom_ofSeed _ _⟩

theorem answer_takeTrace {events : List Event} (hu : b.poisoned = false)
    (htrace : b.trace = some events) : b.takeTrace.answer = .ok events := by
  rw [Bus.takeTrace, hu, htrace]
  rfl

theorem exitCode_endingOf (h : ReportsWell o.bus n r) : (endingOf o.bus r).exitCode = 0 := by
  obtain ⟨⟨report, hresult⟩, hsound, hchecks⟩ := h
  rw [endingOf, hresult]
  dsimp only
  split
  · next htrace =>
    obtain ⟨events, summary, hevents, hcapacity, hcheck, -⟩ := hchecks htrace
    have hverdict : verdictOf r.bus = .ok ⟨events.length, .ok summary⟩ := by
      rw [verdictOf, answer_takeTrace hsound hevents, hcapacity, ← hcheck]
      rfl
    rw [hverdict]
    rfl
  · rfl

theorem checkInWords_ne_none {events : List Event} (h : ReportsWell o.bus n r) (hn : n ≤ 200)
    (htrace : o.bus.recordTrace = true) (htake : r.bus.takeTrace.answer = .ok events) :
    Trace.checkInWords o.bus.capacity events ≠ none := by
  obtain ⟨events', summary, hevents, -, -, hlength⟩ := h.checks htrace
  rw [answer_takeTrace h.unpoisoned hevents] at htake
  cases htake
  have hword : 20 * 200 < Word.size := by decide
  rw [Trace.checkInWords_eq (by omega)]
  exact Option.some_ne_none _

theorem ends_run (exe : Option (List UInt8)) (args : List (List UInt8)) :
    Ends args (run exe args).ending := by
  unfold run
  obtain ⟨-, hscan⟩ | ⟨-, -, refusal, hscan⟩ | ⟨-, o, ho, hscan, -⟩ := scan_cases args
  · rw [hscan]
    exact .help hscan
  · rw [hscan]
    exact .refused hscan
  · rw [hscan]
    dsimp only [execute]
    rw [ho.create_eq]
    exact .ran hscan ho.create_eq
      (ho.moderate.comes_run ho.capacity_pos ho.capacity_lt (ample_source o))

theorem not_diverges (args : List (List UInt8)) : ¬ Diverges args := by
  rintro ⟨o', b, hscan', hcreate, hlingers⟩
  obtain ⟨-, hscan⟩ | ⟨-, -, refusal, hscan⟩ | ⟨-, o, ho, hscan, -⟩ := scan_cases args
  · rw [hscan] at hscan'; cases hscan'
  · rw [hscan] at hscan'; cases hscan'
  obtain ⟨rfl, hfresh⟩ := ho.built hscan hscan' hcreate
  cases hfresh
  exact ho.moderate.not_lingers ho.capacity_pos ho.capacity_lt (ample_source o) hlingers

theorem Usable.comes_cases (ho : Usable o)
    (h : Comes (Bus.fresh o.bus) o.counts o.batch o.batch.source r) :
    (200 < o.counts.sum ∧ ∃ refusal, r.result = .ok (.error refusal)) ∨
    o.counts.sum ≤ 200 ∧ ReportsWell o.bus o.counts.sum r := by
  rw [← ho.maxTasks_eq]
  exact ho.moderate.comes_cases ho.capacity_pos ho.capacity_lt (ample_source o) h

theorem Ends.exits_of_usable (ho : Usable o) (hscan : scan args = .ok o) (h : Ends args e) :
    (e.exitCode = 2 ∧ 200 < o.counts.sum) ∨ e.exitCode = 0 ∧ o.counts.sum ≤ 200 := by
  cases h with
  | unbuilt hscan' hcreate =>
    obtain ⟨-, hfresh⟩ := ho.built hscan hscan' hcreate
    cases hfresh
  | ran hscan' hcreate hcomes =>
    obtain ⟨rfl, hfresh⟩ := ho.built hscan hscan' hcreate
    cases hfresh
    obtain ⟨hmany, refusal, hresult⟩ | ⟨hlimit, hwell⟩ := ho.comes_cases hcomes
    · refine .inl ⟨?_, hmany⟩
      rw [endingOf, hresult]
      rfl
    · exact .inr ⟨exitCode_endingOf hwell, hlimit⟩
  | miscounted hscan' hcreate hcomes hresult htrace htake hcheck =>
    obtain ⟨rfl, hfresh⟩ := ho.built hscan hscan' hcreate
    cases hfresh
    obtain ⟨-, refusal, hrefused⟩ | ⟨hlimit, hwell⟩ := ho.comes_cases hcomes
    · rw [hresult] at hrefused
      cases hrefused
    · exact absurd hcheck (checkInWords_ne_none hwell hlimit htrace htake)
  | _ hscan' => rw [hscan] at hscan'; cases hscan'

theorem Ends.exits (h : Ends args e) :
    (e.exitCode = 2 ∧ ¬ (AsksForHelp args ∨ AsksForAtMost 200 args)) ∨
    e.exitCode = 0 ∧ (AsksForHelp args ∨ AsksForAtMost 200 args) := by
  obtain ⟨hhelp, hscan⟩ | ⟨hhelp, hmost, refusal, hscan⟩ | ⟨hhelp, o, ho, hscan, hmost⟩ :=
    scan_cases args
  · cases h with
    | help => exact .inr ⟨rfl, .inl hhelp⟩
    | _ hscan' => rw [hscan] at hscan'; cases hscan'
  · cases h with
    | refused => exact .inl ⟨rfl, not_or.mpr ⟨hhelp, hmost 200⟩⟩
    | _ hscan' => rw [hscan] at hscan'; cases hscan'
  · obtain ⟨hcode, hmany⟩ | ⟨hcode, hlimit⟩ := h.exits_of_usable ho hscan
    · refine .inl ⟨hcode, not_or.mpr ⟨hhelp, fun hasks => ?_⟩⟩
      exact Nat.not_le_of_lt hmany ((hmost 200).mp hasks)
    · exact .inr ⟨hcode, .inr ((hmost 200).mpr hlimit)⟩

/-- The program never runs for ever, and whatever it is called as, whatever its arguments
are and in whatever order the workers take their steps, its exit code is 0 or 2. It is 0
exactly if the first argument that is bad or asks for help does ask for help, or there is
none of these and the numbers of tasks in effect sum up to at most 200. -/
theorem exit_code_spec (exe : Option (List UInt8)) (args : List (List UInt8)) :
    Ends args (run exe args).ending ∧ ¬ Diverges args ∧ ∀ e, Ends args e →
      (e.exitCode = 0 ∨ e.exitCode = 2) ∧
      (e.exitCode = 0 ↔ AsksForHelp args ∨ AsksForAtMost 200 args) := by
  refine ⟨ends_run exe args, not_diverges args, fun e he => ?_⟩
  obtain ⟨hcode, hasks⟩ | ⟨hcode, hasks⟩ := he.exits
  · rw [hcode]
    exact ⟨.inr rfl, fun hzero => (by cases hzero), fun h => absurd h hasks⟩
  · exact ⟨.inl hcode, fun _ => hasks, fun _ => hcode⟩

/-- In whatever order its workers take their steps, a run with these arguments ends well,
for the last number of senders counts; one with the same arguments the other way around
is refused. -/
theorem exit_code_spec_sending_again :
    (∀ e, Ends [encode "--send=201".toList, encode "--send=+2".toList] e → e.exitCode = 0) ∧
    ∀ e, Ends [encode "--send=+2".toList, encode "--send=201".toList] e → e.exitCode = 2 := by
  obtain ⟨hfew, -, hfewer⟩ :=
    exit_code_spec none [encode "--send=201".toList, encode "--send=+2".toList]
  obtain ⟨hmany, -, hmore⟩ :=
    exit_code_spec none [encode "--send=+2".toList, encode "--send=201".toList]
  have hasks := (hfewer _ hfew).2.mp (by decide +kernel)
  have hrefused := mt (hmore _ hmany).2.mpr (by decide +kernel)
  refine ⟨fun e he => (hfewer e he).2.mpr hasks, fun e he => ?_⟩
  obtain ⟨hzero | htwo, hiff⟩ := hmore e he
  · exact absurd (hiff.mp hzero) hrefused
  · exact htwo

end HalfDuplex.CommandLine
