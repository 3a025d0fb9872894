import HalfDuplex.Proofs.CommandLine.Exits

/-!
# Arguments that override others

Arguments that can be used are read as if only the last one for each setting were there,
so that arguments of different names may change places. An argument that asks for help or
cannot be used ends the run before a bus is built, and neither what comes before it nor
what comes after it shows.
-/

namespace HalfDuplex.CommandLine

open Utf8

variable {exe : Option (List UInt8)} {a b : List UInt8} {args args' before after : List (List UInt8)}
  {s : Setting} {n : Nat} {o o' : Options} {e : Ending} {item : Item}

def flagName (a : List UInt8) : List UInt8 := a.takeWhile (· ≠ '='.toUInt8)

theorem flagName_setting (s : Setting) (value : List Char) :
    flagName (setting s value) = encode s.flag.toList := by
  have hflag : ∀ b ∈ encode s.flag.toList, decide (b ≠ '='.toUInt8) = true := by
    cases s <;> decide +kernel
  have hsplit : setting s value = encode s.flag.toList ++ '='.toUInt8 :: encode value := by
    rw [setting, encode, List.flatMap_append, List.flatMap_cons]
    rfl
  rw [flagName, hsplit, List.takeWhile_append_of_pos hflag, List.takeWhile_cons_of_neg (by simp),
    List.append_nil]

theorem Assigns.flagName_eq (h : Assigns s n a) : flagName a = encode s.flag.toList := by
  obtain ⟨value, rfl, -⟩ := h
  exact flagName_setting s value

/-- The same arguments in another order, in which those of one name follow each other as
before. -/
structure Reordered (args args' : List (List UInt8)) : Prop where
  perm : args.Perm args'
  inOrder : ∀ name, args.filter (flagName · = name) = args'.filter (flagName · = name)

theorem Reordered.swap (h : flagName a ≠ flagName b) (before after : List (List UInt8)) :
    Reordered (before ++ a :: b :: after) (before ++ b :: a :: after) where
  perm := (List.Perm.swap b a after).append_left before
  inOrder name := by
    rw [List.filter_append, List.filter_append]
    congr 1
    by_cases ha : flagName a = name
    · have hb : flagName b ≠ name := fun hb => h (ha.trans hb.symm)
      simp [ha, hb]
    · simp [List.filter_cons, ha]

theorem Effective.reordered (h : Effective args s n) (hr : Reordered args args') :
    Effective args' s n := by
  obtain ⟨before, a, after, rfl, ha, hafter⟩ | ⟨hn, hnone⟩ := h
  · -- Of the arguments of this name those after `a` are the same as before.
    have hnamed := (hr.inOrder (encode s.flag.toList)).symm
    rw [List.filter_append, List.filter_cons_of_pos (by simpa using ha.flagName_eq),
      List.filter_eq_append_iff] at hnamed
    obtain ⟨before', rest, rfl, -, hrest⟩ := hnamed
    obtain ⟨between, after', rfl, -, -, hafter'⟩ := List.filter_eq_cons_iff.mp hrest
    refine .inl ⟨before' ++ between, a, after', by simp, ha, fun x hx m hm => ?_⟩
    have hx' : x ∈ after'.filter (flagName · = encode s.flag.toList) :=
      List.mem_filter.mpr ⟨hx, decide_eq_true hm.flagName_eq⟩
    rw [hafter'] at hx'
    exact hafter x (List.mem_of_mem_filter hx') m hm
  · exact .inr ⟨hn, fun x hx => hnone x (hr.perm.mem_iff.mpr hx)⟩

/-- The options with these settings and all else by default. -/
def Options.ofSettings (n : Setting → Nat) (traced : Bool) : Options where
  counts :=
    { sendNormal := n .send
      sendPriority := n .prioritySend
      receiveNormal := n .receive
      receivePriority := n .priorityReceive }
  bus := { capacity := n .capacity, recordTrace := traced }
  batch := { tick := Span.ofMicros (n .tickMicros), seed := n .seed }

theorem Usable.eq_ofSettings {n : Setting → Nat} (h : Usable o) (hn : ∀ s, o.Holds s (n s)) :
    o = .ofSettings n o.bus.recordTrace := by
  obtain ⟨⟨c₁, c₂, c₃, c₄⟩, ⟨capacity, traced⟩, ⟨maxTasks, tick, maxTicks, seed⟩⟩ := o
  obtain rfl : c₁ = n .send := hn .send
  obtain rfl : c₂ = n .prioritySend := hn .prioritySend
  obtain rfl : c₃ = n .receive := hn .receive
  obtain rfl : c₄ = n .priorityReceive := hn .priorityReceive
  obtain rfl : capacity = n .capacity := hn .capacity
  obtain rfl : tick = Span.ofMicros (n .tickMicros) := hn .tickMicros
  obtain rfl : seed = n .seed := hn .seed
  obtain rfl : maxTasks = 200 := h.maxTasks_eq
  obtain rfl : maxTicks = 244 := h.maxTransferTicks_eq
  rfl

theorem Clean.ofBytes_eq_trace_iff (h : Clean a) : Item.ofBytes a = .ok .trace ↔ IsTrace a := by
  constructor
  · intro hread
    obtain ⟨hbad, -⟩ | ⟨hhelp, -⟩ | ⟨htrace, -⟩ | ⟨s, n, -, -, -, hread'⟩ := ofBytes_cases a
    · exact absurd hread (hbad.not_ok _)
    · exact absurd hhelp h.2
    · exact htrace
    · rw [hread] at hread'
      cases hread'
  · rintro rfl
    rw [ofBytes_word (by decide)]
    rfl

theorem recordTrace_take (hitem : item ≠ .trace) :
    (o.take item).bus.recordTrace = o.bus.recordTrace := by
  cases item with
  | trace => exact absurd rfl hitem
  | assign s n => cases s <;> rfl
  | help => rfl

theorem recordTrace_scanInto (hclean : ∀ a ∈ args, Clean a) (hscan : scanInto o args = .ok o') :
    o'.bus.recordTrace = (o.bus.recordTrace || decide (encode "--trace".toList ∈ args)) := by
  induction args generalizing o with
  | nil =>
    cases hscan
    exact (Bool.or_false _).symm
  | cons a args ih =>
    obtain ⟨hfirst, hrest⟩ := List.forall_mem_cons.mp hclean
    obtain ⟨item, hread, hitem⟩ := hfirst.exists_item
    rw [scanInto_cons hread hitem] at hscan
    rw [ih hrest hscan]
    by_cases htrace : item = .trace
    · subst htrace
      obtain rfl := hfirst.ofBytes_eq_trace_iff.mp hread
      simp [Options.take, Options.recordTrace]
    · have ha : encode "--trace".toList ≠ a := fun ha => by
        rw [hfirst.ofBytes_eq_trace_iff.mpr ha.symm] at hread
        exact htrace (Except.ok.inj hread).symm
      rw [recordTrace_take htrace]
      simp only [List.mem_cons, ha, false_or]

theorem scan_eq_ofSettings {n : Setting → Nat} (hclean : ∀ a ∈ args, Clean a)
    (hn : ∀ s, Effective args s (n s)) :
    scan args = .ok (.ofSettings n (decide (encode "--trace".toList ∈ args))) := by
  obtain ⟨o, ho, hscan⟩ := scan_of_clean hclean
  have htrace := recordTrace_scanInto hclean hscan
  rw [hscan, ho.eq_ofSettings fun s => holds_of_effective hclean (hn s) hscan, htrace]
  rfl

theorem scan_reordered (hclean : ∀ a ∈ args, Clean a) (hr : Reordered args args') :
    scan args' = scan args := by
  choose n hn using exists_effective args
  have hclean' : ∀ a ∈ args', Clean a := fun a ha => hclean a (hr.perm.mem_iff.mpr ha)
  rw [scan_eq_ofSettings hclean hn, scan_eq_ofSettings hclean' fun s => (hn s).reordered hr]
  simp only [hr.perm.mem_iff]

/-- The arguments come to a bus. -/
def BuildsBus (args : List (List UInt8)) : Prop :=
  ∃ o b, scan args = .ok o ∧ Bus.create o.bus = .ok b

theorem run_of_scan_eq (h : scan args' = scan args) : run exe args' = run exe args := by
  unfold run
  rw [h]

theorem Ends.of_scan_eq (h : scan args' = scan args) (he : Ends args e) : Ends args' e := by
  cases he with
  | help hscan => exact .help (h.trans hscan)
  | refused hscan => exact .refused (h.trans hscan)
  | unbuilt hscan hcreate => exact .unbuilt (h.trans hscan) hcreate
  | ran hscan hcreate hcomes => exact .ran (h.trans hscan) hcreate hcomes
  | miscounted hscan hcreate hcomes hresult htrace htake hcheck =>
    exact .miscounted (h.trans hscan) hcreate hcomes hresult htrace htake hcheck

/-- Why an argument that asks for help or cannot be used ends a scan. -/
def stopOf (a : List UInt8) : Stop :=
  match Item.ofBytes a with
  | .error r => .refused r
  | .ok _ => .help

def Stop.ending : Stop → Ending
  | .help => .help
  | .refused r => .refused r

theorem scan_of_stop (hbefore : ∀ x ∈ before, Clean x) (ha : Bad a ∨ IsHelp a)
    (after : List (List UInt8)) : scan (before ++ a :: after) = .error (stopOf a) := by
  obtain ⟨o, -, hscan⟩ := exists_scanInto hbefore usable_default
  rw [scan, hscan, scanInto, stopOf]
  obtain hbad | hhelp := ha
  · cases hread : Item.ofBytes a with
    | ok item => exact absurd hread (hbad.not_ok item)
    | error r => rfl
  · rw [ofBytes_of_isHelp hhelp]

theorem run_of_scan_ok (h : scan args = .ok o) :
    run exe args = execute (programName exe) o := by
  unfold run
  rw [h]

theorem run_of_scan_error {stop : Stop} (h : scan args = .error stop) :
    run exe args = .ended (programName exe) stop.ending := by
  unfold run
  rw [h]
  cases stop <;> rfl

/-- The batch that is run takes place on a bus of its own settings, with the numbers of tasks
that were asked for, the settings of batches, and durations from the seed. -/
theorem execute_ofSettings (name : String) (n : Setting → Nat) (traced : Bool)
    (hcapacity : 0 < n .capacity) : ∃ b, Bus.create ⟨n .capacity, traced⟩ = .ok b ∧
      execute name (.ofSettings n traced) = .ofBatch name ⟨n .capacity, traced⟩
        (Batch.run b
          (Batch.Counts.ofSpawnOrder (n .prioritySend) (n .priorityReceive) (n .send) (n .receive))
          { tick := Span.ofMicros (n .tickMicros), seed := n .seed }
          (.ofSeed (n .seed)) fun _ => false) := by
  have hcreate : Bus.create ⟨n .capacity, traced⟩ = .ok (Bus.fresh ⟨n .capacity, traced⟩) := by
    rw [Bus.create, Bus.Config.validate, if_neg hcapacity.ne']
    rfl
  have hbus : (Options.ofSettings n traced).bus = ⟨n .capacity, traced⟩ := rfl
  refine ⟨_, hcreate, ?_⟩
  rw [execute, hbus, hcreate]
  rfl

theorem ends_iff_of_scan_error {stop : Stop} (h : scan args = .error stop) :
    Ends args e ↔ e = stop.ending := by
  constructor
  · intro he
    cases he with
    | help hscan | refused hscan =>
      rw [h] at hscan
      cases hscan
      rfl
    | _ hscan =>
      rw [h] at hscan
      cases hscan
  · rintro rfl
    cases stop with
    | help => exact .help h
    | refused r => exact .refused h

/-- Of arguments that can be used and do not ask for help the last one for each setting
counts, and a setting without one has its default; one batch is run with these settings. The
arguments may come in any other order that keeps those of one name in theirs. If there are
others, a run depends on the first of them alone, and no bus is built. -/
theorem last_argument_counts_first_stop_decides (exe : Option (List UInt8))
    (args : List (List UInt8)) :
    ((∀ a ∈ args, Clean a) →
      (∀ s, ∃ n, Effective args s n) ∧
      (∀ n : Setting → Nat, (∀ s, Effective args s (n s)) →
        scan args = .ok (.ofSettings n (decide (encode "--trace".toList ∈ args))) ∧
        ∃ cfg b, cfg = ⟨n .capacity, decide (encode "--trace".toList ∈ args)⟩ ∧
          Bus.create cfg = .ok b ∧
          run exe args = .ofBatch (programName exe) cfg
            (Batch.run b
              (Batch.Counts.ofSpawnOrder (n .prioritySend) (n .priorityReceive) (n .send)
                (n .receive))
              { tick := Span.ofMicros (n .tickMicros), seed := n .seed }
              (.ofSeed (n .seed)) fun _ => false)) ∧
      ∀ args', Reordered args args' →
        scan args' = scan args ∧ run exe args' = run exe args ∧ ∀ e, Ends args' e ↔ Ends args e) ∧
    ((∀ a ∈ args, Clean a) ∨ ∃ before a after, args = before ++ a :: after ∧
      (∀ x ∈ before, Clean x) ∧ (Bad a ∨ IsHelp a)) ∧
    ∀ before a after, args = before ++ a :: after → (∀ x ∈ before, Clean x) →
      (Bad a ∨ IsHelp a) →
      run exe args = .ended (programName exe) (stopOf a).ending ∧
        (∀ e, Ends args e ↔ e = (stopOf a).ending) ∧ ¬ BuildsBus args := by
  refine ⟨fun hclean => ⟨exists_effective args, fun n hn => ?_, fun args' hr => ?_⟩,
    clean_or_first args, fun before a after hargs hbefore ha => ?_⟩
  · have hscan := scan_eq_ofSettings hclean hn
    obtain ⟨o, ho, hscan'⟩ := scan_of_clean hclean
    obtain rfl : Options.ofSettings n _ = o := Except.ok.inj (hscan.symm.trans hscan')
    obtain ⟨b, hcreate, hrun⟩ := execute_ofSettings (programName exe) n _ ho.capacity_pos
    exact ⟨hscan, _, b, rfl, hcreate, (run_of_scan_ok hscan).trans hrun⟩
  · have hscan := scan_reordered hclean hr
    exact ⟨hscan, run_of_scan_eq hscan, fun e => ⟨.of_scan_eq hscan.symm, .of_scan_eq hscan⟩⟩
  · have hscan := scan_of_stop hbefore ha after
    rw [← hargs] at hscan
    refine ⟨run_of_scan_error hscan, fun e => ends_iff_of_scan_error hscan, ?_⟩
    rintro ⟨o, b, ho, -⟩
    rw [hscan] at ho
    cases ho

theorem clean_of_ofBytes (hread : Item.ofBytes a = .ok item) (hitem : item ≠ .help) : Clean a := by
  refine ⟨fun hbad => hbad.not_ok item hread, fun hhelp => ?_⟩
  rw [ofBytes_of_isHelp hhelp] at hread
  exact hitem (Except.ok.inj hread).symm

def sendingTwice : List (List UInt8) :=
  [encode "--send=201".toList, encode "--trace".toList, encode "--send=+2".toList]

/-- The second number counts, also with the arguments in another order. A capacity of 0
is refused though another one follows. -/
theorem last_argument_counts_first_stop_decides_sending_twice :
    (∀ n : Setting → Nat, (∀ s, Effective sendingTwice s (n s)) →
      n .send = 2 ∧ n .capacity = 3) ∧
    run none [encode "--send=201".toList, encode "--send=+2".toList, encode "--trace".toList] =
      run none sendingTwice ∧
    ∀ e, Ends [encode "--trace".toList, encode "--capacity=0".toList,
      encode "--capacity=2".toList] e ↔ e = .refused .zeroCapacity := by
  have hfirst : Item.ofBytes (encode "--send=201".toList) = .ok (.assign .send 201) := by
    decide +kernel
  have htrace : Item.ofBytes (encode "--trace".toList) = .ok .trace := by decide +kernel
  have hsecond : Item.ofBytes (encode "--send=+2".toList) = .ok (.assign .send 2) := by
    decide +kernel
  have hclean : ∀ a ∈ sendingTwice, Clean a := by
    intro a ha
    obtain rfl | rfl | rfl := by simpa [sendingTwice] using ha
    · exact clean_of_ofBytes hfirst Item.noConfusion
    · exact clean_of_ofBytes htrace Item.noConfusion
    · exact clean_of_ofBytes hsecond Item.noConfusion
  obtain ⟨hlast, -, -⟩ := last_argument_counts_first_stop_decides none sendingTwice
  obtain ⟨-, hsettings, horder⟩ := hlast hclean
  refine ⟨fun n hn => ?_, ?_, fun e => ?_⟩
  · have hscan : (scan sendingTwice).map (fun o => (o.counts.sendNormal, o.bus.capacity)) =
        .ok (2, 3) := by decide +kernel
    rw [(hsettings n hn).1] at hscan
    exact Prod.mk.inj (Except.ok.inj hscan)
  · have hnames : flagName (encode "--trace".toList) ≠ flagName (encode "--send=+2".toList) := by
      decide +kernel
    exact (horder _ (.swap hnames [encode "--send=201".toList] [])).2.1
  · have hzero : encode "--capacity=0".toList = setting .capacity ['0'] := by decide +kernel
    have hbad : Bad (encode "--capacity=0".toList) := by
      rw [hzero]
      exact .zeroCapacity (parse?_eq_some_iff.mp (by decide))
    have hstop : stopOf (encode "--capacity=0".toList) = .refused .zeroCapacity := by
      decide +kernel
    have hends := ((last_argument_counts_first_stop_decides none _).2.2 [encode "--trace".toList] _
      [encode "--capacity=2".toList] rfl
      (List.forall_mem_singleton.mpr (clean_of_ofBytes htrace Item.noConfusion)) (.inl hbad)).2.1 e
    rwa [hstop] at hends

end HalfDuplex.CommandLine
