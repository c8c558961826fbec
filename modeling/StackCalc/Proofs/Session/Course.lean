import StackCalc.Proofs.Machine.Detached
import StackCalc.Proofs.Machine.Surroundings
import StackCalc.Proofs.Machine.Twins
import StackCalc.Proofs.Machine.Upkeep
import StackCalc.Session

/-! # The course of a session

The inputs of a session are run one after the other, each on the stack, the table and the files that
the one before has left, until one of them cannot be opened. What each run writes does not depend on
what has been written before it, so the output of the session is made up of the outputs of its runs.
However a session ends, stack and table are empty then.
-/

namespace StackCalc

open Bytes (ascii)

namespace Sink

variable {k k' : Sink}

def Writes (a : Writing Unit) (s : Bytes) : Prop :=
  ∀ k, NeverFails k → ∃ k', a k = .ok () k' ∧ Grown k s k'

theorem writes_write (s : Bytes) : Writes (write s) s := fun _ hk => write_grown hk.room_eq s

theorem writes_writeAll (pieces : List Bytes) : Writes (writeAll pieces) pieces.flatten :=
  fun _ hk => writeAll_grown hk.room_eq pieces

theorem writes_flush : Writes flush [] := by
  intro k hk
  rw [flush, hk.flushFault_eq]
  exact ⟨k, rfl, hk.room_eq, rfl, (List.append_nil _).symm⟩

theorem Writes.grown_after {a : Writing Unit} {s : Bytes} (ha : Writes a s) (hk : k.NeverFails) :
    Grown k s (k.after a) := by
  obtain ⟨k', hk', hgrown⟩ := ha k hk
  rwa [after, hk']

structure Behind (before : Bytes) (k k' : Sink) : Prop where
  left : k.NeverFails
  right : k'.NeverFails
  bytes_eq : k'.bytes = before ++ k.bytes

theorem Behind.alike {before s : Bytes} {a : Writing Unit} (h : Behind before k k')
    (ha : Writes a s) : Alike (Behind before) (a k) (a k') := by
  obtain ⟨k₁, hk, hgrown⟩ := ha k h.left
  obtain ⟨k₂, hk', hgrown'⟩ := ha k' h.right
  rw [hk, hk']
  refine .ok ⟨h.left.of_grown hgrown, h.right.of_grown hgrown', ?_⟩
  rw [hgrown'.bytes_eq, h.bytes_eq, hgrown.bytes_eq, List.append_assoc]

theorem matching_behind (before : Bytes) : Matching (Behind before) where
  write s _ _ h := h.alike (writes_write s)
  flush h := h.alike writes_flush

end Sink

def Machine.fresh (m : Machine) : Machine :=
  { limits := m.limits, stack := m.stack, table := m.table, files := m.files }

namespace Session

structure Visit where
  path : Bytes
  outcome : Machine.Outcome

/-- What the user is shown: which input it is, and the output of its run. -/
def Visit.output (v : Visit) : Bytes :=
  ascii "Running on input file " ++ v.path ++ ascii "\n" ++ v.outcome.machine.out.bytes

def Visit.complaint (v : Visit) : Bytes :=
  match v.outcome.result with
  | .ok _ => []
  | .error e => ascii "\x1b[1m" ++ e.text ++ ascii "\x1b[0m\nError\n"

structure Refusal where
  path : Bytes
  fault : Fault

def Refusal.output (r : Refusal) : Bytes := ascii "Running on input file " ++ r.path ++ ascii "\n"

def Refusal.complaint (r : Refusal) : Bytes :=
  ascii "Error opening " ++ r.path ++ ascii " for reading; " ++ r.fault.text ++ ascii "\n"

/-- Which inputs a session on `paths` runs from a machine on, what keeps it from running the others,
and the machine it leaves. Whether a path can be opened is up to the files at that time. -/
inductive Course :
    Machine → (paths : List Bytes) → List Visit → Option Refusal → Machine → Prop where
  | finished (m : Machine) : Course m [] [] none m
  | refused {m : Machine} {path : Bytes} {f : Fault} (paths : List Bytes) :
      m.files.disk.openSource path = .error f → Course m (path :: paths) [] (some ⟨path, f⟩) m
  | next {m m' : Machine} {path : Bytes} {paths : List Bytes} {input : Source}
      {visits : List Visit} {refusal? : Option Refusal} :
      m.files.disk.openSource path = .ok input →
      Course (m.fresh.run input).machine paths visits refusal? m' →
      Course m (path :: paths) (⟨path, m.fresh.run input⟩ :: visits) refusal? m'

theorem exists_course (m : Machine) (paths : List Bytes) :
    ∃ visits refusal? m', Course m paths visits refusal? m' := by
  induction paths generalizing m with
  | nil => exact ⟨[], none, m, .finished m⟩
  | cons path paths ih =>
    cases h : m.files.disk.openSource path with
    | error f => exact ⟨[], some ⟨path, f⟩, m, .refused paths h⟩
    | ok input =>
      obtain ⟨visits, refusal?, m', hc⟩ := ih (m.fresh.run input).machine
      exact ⟨_, refusal?, m', .next h hc⟩

theorem Course.paths_eq {m m' : Machine} {paths : List Bytes} {visits : List Visit}
    {refusal? : Option Refusal} (h : Course m paths visits refusal? m') :
    visits.map Visit.path = paths.take visits.length ∧
      refusal?.map Refusal.path = paths[visits.length]? := by
  induction h with
  | finished => exact ⟨rfl, rfl⟩
  | refused => exact ⟨rfl, rfl⟩
  | next _ _ ih => exact ⟨congrArg (_ :: ·) ih.1, ih.2⟩

/-- Both outputs take everything, and no save reaches them. -/
structure Plain (w : Session) : Prop where
  out : w.machine.out.NeverFails
  err : w.machine.err.NeverFails
  detached : w.machine.files.disk.Detached

/-- The session has got to where `m` is, and this is what has been written. -/
structure Abreast (m : Machine) (out err : Bytes) (w : Session) : Prop where
  plain : w.Plain
  sameCore : m.SameCore w.machine
  files_eq : w.machine.files = m.files
  out_eq : w.machine.out.bytes = out
  err_eq : w.machine.err.bytes = err

theorem bind_of_ok {α β : Type} {x : Work α} {f : α → Work β} {a : α} {w w' : Session}
    (h : x w = .ok a w') : (x >>= f) w = f a w' := by
  change EStateM.bind x f w = _
  rw [EStateM.bind, h]

theorem bind_of_error {α β : Type} {x : Work α} {f : α → Work β} {i : Interruption}
    {w w' : Session} (h : x w = .error i w') : (x >>= f) w = .error i w' := by
  change EStateM.bind x f w = _
  rw [EStateM.bind, h]

namespace Abreast

variable {m : Machine} {out err s path : Bytes} {w : Session} {a : Writing Unit}

theorem withOut (h : Abreast m out err w) {k : Sink} (hk : Sink.Grown w.machine.out s k) :
    Abreast m (out ++ s) err { w with machine := { w.machine with out := k } } :=
  ⟨⟨h.plain.out.of_grown hk, h.plain.err, h.plain.detached⟩,
    ⟨h.sameCore.limits_eq, h.sameCore.stack_eq, h.sameCore.table_eq⟩, h.files_eq,
    hk.bytes_eq.trans (h.out_eq ▸ rfl), h.err_eq⟩

theorem withErr (h : Abreast m out err w) {k : Sink} (hk : Sink.Grown w.machine.err s k) :
    Abreast m out (err ++ s) { w with machine := { w.machine with err := k } } :=
  ⟨⟨h.plain.out, h.plain.err.of_grown hk, h.plain.detached⟩,
    ⟨h.sameCore.limits_eq, h.sameCore.stack_eq, h.sameCore.table_eq⟩, h.files_eq,
    h.out_eq, hk.bytes_eq.trans (h.err_eq ▸ rfl)⟩

theorem writing_output (h : Abreast m out err w) (ha : Sink.Writes a s) :
    ∃ w', writing .output a w = .ok () w' ∧ Abreast m (out ++ s) err w' := by
  obtain ⟨k, hk, hgrown⟩ := ha _ h.plain.out
  refine ⟨_, ?_, h.withOut hgrown⟩
  rw [writing, Machine.sink, hk]
  rfl

theorem writing_errors (h : Abreast m out err w) (ha : Sink.Writes a s) :
    ∃ w', writing .errors a w = .ok () w' ∧ Abreast m out (err ++ s) w' := by
  obtain ⟨k, hk, hgrown⟩ := ha _ h.plain.err
  refine ⟨_, ?_, h.withErr hgrown⟩
  rw [writing, Machine.sink, hk]
  rfl

theorem emit (h : Abreast m out err w) (e : Event) :
    Abreast m out err { w with machine := w.machine.emit e } :=
  ⟨⟨h.plain.out, h.plain.err, h.plain.detached⟩, h.sameCore.trans (Machine.sameCore_emit _ e),
    h.files_eq, h.out_eq, h.err_eq⟩

/-- With nothing written yet, the run would end in the same way. -/
theorem runInput (h : Abreast m out err w) (hm : m.stack.Bounded) (hpath : path ≠ stdinPath)
    {input : Source} (hopen : m.files.disk.openSource path = .ok input) :
    ∃ w', runInput path w = .ok (m.fresh.run input).result w' ∧
      Abreast (m.fresh.run input).machine (out ++ (m.fresh.run input).machine.out.bytes) err
        w' := by
  have htwin : m.fresh.Twin (Sink.Behind out) (Sink.Behind err) w.machine :=
    ⟨⟨h.sameCore.limits_eq, h.sameCore.stack_eq, h.sameCore.table_eq⟩, h.files_eq,
      ⟨⟨rfl, rfl⟩, h.plain.out, h.out_eq.trans (List.append_nil _).symm⟩,
      ⟨⟨rfl, rfl⟩, h.plain.err, h.err_eq.trans (List.append_nil _).symm⟩⟩
  have hlike := htwin.run (Sink.matching_behind out) (Sink.matching_behind err) hm input
  have hfresh : m.fresh.Hushed {} := ⟨rfl, h.files_eq ▸ h.plain.detached⟩
  have hhushed := hfresh.run hm input
  have htwin' := hlike.machine
  refine ⟨{ w with machine := (w.machine.run input).machine }, ?_, ?_, htwin'.sameCore,
    htwin'.files_eq, htwin'.out.bytes_eq, ?_⟩
  · rw [Session.runInput, if_neg hpath, h.files_eq, hopen]
    dsimp only
    rw [hlike.result_eq]
  · exact ⟨htwin'.out.right, htwin'.err.right, htwin'.files_eq ▸ hhushed.detached⟩
  · -- Nothing has got to the error output of the fresh machine.
    rw [htwin'.err.bytes_eq, hhushed.err_eq]
    exact List.append_nil err

theorem visit (h : Abreast m out err w) (hm : m.stack.Bounded) (hpath : path ≠ stdinPath)
    {input : Source} (hopen : m.files.disk.openSource path = .ok input) :
    ∃ w', visit path w = .ok () w' ∧ Abreast (m.fresh.run input).machine
      (out ++ Visit.output ⟨path, m.fresh.run input⟩)
      (err ++ Visit.complaint ⟨path, m.fresh.run input⟩) w' := by
  obtain ⟨w₁, hheader, h₁⟩ := h.writing_output (Sink.writes_write (header path))
  obtain ⟨w₂, hrun, h₂⟩ := h₁.runInput hm hpath hopen
  obtain ⟨w₃, hflush, h₃⟩ := h₂.writing_output Sink.writes_flush
  rw [List.append_nil, List.append_assoc] at h₃
  rw [Session.visit, bind_of_ok hheader, bind_of_ok hrun, bind_of_ok hflush]
  unfold Visit.complaint
  cases (m.fresh.run input).result with
  | ok count => exact ⟨_, rfl, (List.append_nil err).symm ▸ h₃.emit (.inputFinished path count)⟩
  | error e =>
    obtain ⟨w₄, hreport, h₄⟩ := h₃.writing_errors (Sink.writes_writeAll (report e))
    refine ⟨w₄, hreport, ?_⟩
    have htext : (report e).flatten = ascii "\x1b[1m" ++ e.text ++ ascii "\x1b[0m\nError\n" := by
      have hlines : ascii "\x1b[0m\nError\n" = ascii "\x1b[0m\n" ++ ascii "Error\n" := rfl
      simp [report, hlines]
    rwa [htext] at h₄

theorem visit_refused (h : Abreast m out err w) (hpath : path ≠ stdinPath) {f : Fault}
    (hopen : m.files.disk.openSource path = .error f) :
    ∃ w', Session.visit path w = .error (.cannotOpen path f) w' ∧
      Abreast m (out ++ Refusal.output ⟨path, f⟩) err w' := by
  obtain ⟨w', hheader, h'⟩ := h.writing_output (Sink.writes_write (header path))
  have hrefused : Session.runInput path w' = .error (.cannotOpen path f) w' := by
    rw [Session.runInput, if_neg hpath, h'.files_eq, hopen]
  exact ⟨w', (bind_of_ok hheader).trans (bind_of_error hrefused), h'⟩

theorem teardown (h : Abreast m out err w) : Abreast m.reset.2 out err w.teardown := by
  have hreset : Abreast m.reset.2 out err
      { w with machine := { w.machine with stack := w.machine.stack.clear,
                                           table := w.machine.table.clear.2 } } := by
    refine ⟨⟨h.plain.out, h.plain.err, h.plain.detached⟩,
      ⟨h.sameCore.limits_eq, ?_, ?_⟩, h.files_eq, h.out_eq, h.err_eq⟩
    · exact congrArg Stack.clear h.sameCore.stack_eq
    · exact congrArg (·.clear.2) h.sameCore.table_eq
  exact (hreset.emit _).emit _

end Abreast

theorem Course.visitAll {m m' : Machine} {paths : List Bytes} {visits : List Visit}
    {refusal? : Option Refusal} {out err : Bytes} {w : Session}
    (hc : Course m paths visits refusal? m') (hm : m.stack.Bounded) (h : Abreast m out err w)
    (hpaths : stdinPath ∉ paths) :
    ∃ w', Session.visitAll paths w =
        refusal?.elim (.ok () w') (fun r => .error (.cannotOpen r.path r.fault) w') ∧
      Abreast m' (out ++ visits.flatMap Visit.output ++ refusal?.elim [] Refusal.output)
        (err ++ visits.flatMap Visit.complaint) w' := by
  induction hc generalizing out err w with
  | finished m =>
    refine ⟨w, rfl, ?_⟩
    simpa using h
  | @refused m path f paths hopen =>
    have hpath : path ≠ stdinPath := (List.ne_of_not_mem_cons hpaths).symm
    obtain ⟨w', hvisit, h'⟩ := h.visit_refused hpath hopen
    refine ⟨w', bind_of_error hvisit, ?_⟩
    simpa using h'
  | @next m m' path paths input visits refusal? hopen _ ih =>
    have hpath : path ≠ stdinPath := (List.ne_of_not_mem_cons hpaths).symm
    obtain ⟨w₁, hvisit, h₁⟩ := h.visit hm hpath hopen
    obtain ⟨w', hrest, h'⟩ :=
      ih (Machine.bounded_run input hm) h₁ (List.not_mem_of_not_mem_cons hpaths)
    refine ⟨w', (bind_of_ok hvisit).trans hrest, ?_⟩
    simpa only [List.flatMap_cons, List.append_assoc] using h'

/-- What is left of a session on `paths` that had a certain course. -/
structure Concludes (w : Session) (paths : List Bytes) (visits : List Visit)
    (refusal? : Option Refusal) (m : Machine) : Prop where
  status_eq : (w.run paths).1 = if refusal?.isSome then 1 else 0
  out_eq : (w.run paths).2.machine.out.bytes =
    w.machine.out.bytes ++ visits.flatMap Visit.output ++ refusal?.elim [] Refusal.output
  err_eq : (w.run paths).2.machine.err.bytes =
    w.machine.err.bytes ++ visits.flatMap Visit.complaint ++ refusal?.elim [] Refusal.complaint
  files_eq : (w.run paths).2.machine.files = m.files
  /-- Stack and table before the teardown. -/
  core : Leaves (fun w' => w'.machine.stack = m.stack ∧ w'.machine.table = m.table)
    (visitAll paths w)

theorem Course.concludes {w : Session} {m : Machine} {paths : List Bytes} {visits : List Visit}
    {refusal? : Option Refusal} (hc : Course w.machine paths visits refusal? m)
    (hm : w.machine.stack.Bounded) (hw : w.Plain) (hpaths : stdinPath ∉ paths) :
    Concludes w paths visits refusal? m := by
  obtain ⟨w₁, hvisit, h₁⟩ := hc.visitAll hm ⟨hw, .refl _, rfl, rfl, rfl⟩ hpaths
  obtain ⟨w', hrun, h'⟩ : ∃ w', w.run paths = (if refusal?.isSome then 1 else 0, w') ∧
      Abreast m.reset.2
        (w.machine.out.bytes ++ visits.flatMap Visit.output ++ refusal?.elim [] Refusal.output)
        (w.machine.err.bytes ++ visits.flatMap Visit.complaint ++
          refusal?.elim [] Refusal.complaint) w' := by
    rw [run, hvisit]
    cases refusal? with
    | none => exact ⟨_, rfl, (List.append_nil (w.machine.err.bytes ++ _)).symm ▸ h₁.teardown⟩
    | some r =>
      have hgrown := (Sink.writes_write r.complaint).grown_after h₁.teardown.plain.err
      exact ⟨_, rfl, h₁.teardown.withErr hgrown⟩
  refine ⟨?_, ?_, ?_, ?_, ?_⟩
  · rw [hrun]
  · rw [hrun, h'.out_eq]
  · rw [hrun, h'.err_eq]
  · rw [hrun]
    exact h'.files_eq
  · rw [hvisit]
    cases refusal? <;> exact ⟨h₁.sameCore.stack_eq, h₁.sameCore.table_eq⟩

section Teardown

variable {L : Limits} {w : Session}

theorem reachable_writing (h : w.machine.Reachable L) (stream : Stream) (a : Writing Unit) :
    Leaves (fun w => w.machine.Reachable L) (writing stream a w) := by
  unfold writing
  cases a (w.machine.sink stream) with
  | ok _ k => exact .surroundings h (Machine.sameCore_withSink _ stream k)
  | error _ k => exact .surroundings h (Machine.sameCore_withSink _ stream k)

theorem reachable_runInput (h : w.machine.Reachable L) (path : Bytes) :
    Leaves (fun w => w.machine.Reachable L) (runInput path w) := by
  unfold runInput
  split
  · exact .run w.stdin h
  · cases w.machine.files.disk.openSource path with
    | error f => exact h
    | ok input => exact .run input h

theorem reachable_visit (h : w.machine.Reachable L) (path : Bytes) :
    Leaves (fun w => w.machine.Reachable L) (visit path w) := by
  refine .bind (reachable_writing h _ _) fun _ w₁ h₁ => ?_
  refine .bind (reachable_runInput h₁ path) fun result w₂ h₂ => ?_
  refine .bind (reachable_writing h₂ _ _) fun _ w₃ h₃ => ?_
  cases result with
  | ok count => exact .surroundings h₃ (Machine.sameCore_emit _ _)
  | error e => exact reachable_writing h₃ _ _

theorem sameCore_run (h : w.machine.Reachable L) (paths : List Bytes) :
    (Machine.new L).SameCore (w.run paths).2.machine := by
  have hleaves := Leaves.forM (fun path _ h => reachable_visit h path) h paths
  have hteardown {w : Session} (h : w.machine.Reachable L) :
      (Machine.new L).SameCore w.teardown.machine :=
    h.within.core_reset.trans (Machine.sameCore_emit _ _)
  unfold run Session.visitAll
  generalize paths.forM visit w = r at hleaves
  cases r with
  | ok _ w' => exact hteardown hleaves
  | error i w' => exact (hteardown hleaves).trans ⟨rfl, rfl, rfl⟩

end Teardown

end Session

end StackCalc
