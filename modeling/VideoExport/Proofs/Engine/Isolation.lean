import VideoExport.Graph.Filter
import VideoExport.Proofs.Coupling
import VideoExport.Proofs.Engine.Storage

/-!
# Engines that keep jobs apart

What an engine does for a job is to depend on the entries that the job names, and on nothing else that
was done before (`Engine.Isolated`). Two worlds are twins for a job (`World.Twin`) if its own entries are
the same in both; what stands under other names may differ, and stays. The operations of the engine that
a job asks for keep worlds twins and end alike.
-/

set_option autoImplicit false

namespace VideoExport

variable {σ : Type} {e : Engine σ}

/-- Usual worlds whose entries under some names are the same. -/
structure StorageView.Same (v : StorageView e) (Usual : World σ → Prop) (names : List String)
    (w w' : World σ) : Prop where
  left : Usual w
  right : Usual w'
  entries : ∀ n ∈ names, v.entry w n = v.entry w' n

/-- In usual worlds, which what the engine does leaves usual, time stands still, and the engine has
storage of its own, in which an operation finds and leaves what the entries that it names tell. -/
structure Engine.Isolated (e : Engine σ) (v : StorageView e) (Usual : World σ → Prop) : Prop where
  time : ∀ {w w' : World σ}, Usual w → Usual w' →
    w.host.clock = w'.host.clock ∧ w.host.now = w'.host.now
  elsewhere : ∀ {w : World σ} (files : FileTree) (journal : Journal), Usual w →
    Usual { w with host := { w.host with files, journal } }
  own : ∀ {w w' : World σ}, w'.engine = w.engine → v.entry w' = v.entry w
  step : ∀ {c : EngineStep σ}, Made e c → Usual c.before →
    Usual c.after ∧ c.after.host.files = c.before.host.files
  load : ∀ {w : World σ}, Usual w → (e.load.run w).1 = .returned ()
  reset : ∀ {w : World σ}, Usual w → (e.reset.run w).1 = .returned () ∧
    ∀ n, v.entry (e.reset.run w).2 n = none
  write : ∀ {w w' : World σ} (name : String) (content : ByteArray), Usual w → Usual w' →
    ((e.write name content).run w).1 = ((e.write name content).run w').1
  written : ∀ {w : World σ} (name : String) (content : ByteArray), Usual w →
    v.entry ((e.write name content).run w).2 name =
      match ((e.write name content).run w).1 with
      | .returned () => some content
      | _ => v.entry w name
  read : ∀ {w w' : World σ} (name : String), v.Same Usual [name] w w' →
    ((e.read name).run w).1 = ((e.read name).run w').1
  delete : ∀ name, (e.delete name).Agrees (v.Same Usual [name]) (e.delete name)
  execute : ∀ arguments, (e.execute arguments).Couples (v.Same Usual (fontEntry :: arguments))
    (Execution.Agrees (v.Same Usual (fontEntry :: arguments)))
    (v.Same Usual (fontEntry :: arguments)) (e.execute arguments)

/-- Worlds in which a job's own entries are the same. What stands under other names is as in `B` and in
`B'`, and `Files` relates the files. -/
structure World.Twin (v : StorageView e) (Usual : World σ → Prop) (Files : FileTree → FileTree → Prop)
    (own : List String) (B B' : String → Option ByteArray) (w w' : World σ) : Prop where
  left : Usual w
  right : Usual w'
  files : Files w.host.files w'.host.files
  others : ∀ n, n ∉ own → v.entry w n = B n ∧ v.entry w' n = B' n
  own : ∀ n ∈ own, v.entry w n = v.entry w' n

namespace World.Twin

variable {v : StorageView e} {Usual : World σ → Prop} {Files : FileTree → FileTree → Prop}
  {own arguments : List String} {B B' : String → Option ByteArray} {w w' : World σ} {name : String}

/-- Steps that touch only own entries, and leave those that they touch the same, keep worlds twins. -/
theorem step {c c' : EngineStep σ} (isolated : e.Isolated v Usual)
    (twin : Twin v Usual Files own B B' c.before c'.before) (made : Made e c) (made' : Made e c')
    (touch : ∀ n, c.act.Touches n ∨ c'.act.Touches n →
      n ∈ own ∧ v.entry c.after n = v.entry c'.after n) :
    Twin v Usual Files own B B' c.after c'.after where
  left := (isolated.step made twin.left).1
  right := (isolated.step made' twin.right).1
  files := by
    rw [(isolated.step made twin.left).2, (isolated.step made' twin.right).2]
    exact twin.files
  others n hn := by
    rw [v.frame made fun ht => hn (touch n (.inl ht)).1,
      v.frame made' fun ht => hn (touch n (.inr ht)).1]
    exact twin.others n hn
  own n hn := by
    by_cases ht : c.act.Touches n ∨ c'.act.Touches n
    · exact (touch n ht).2
    · rw [not_or] at ht
      rw [v.frame made ht.1, v.frame made' ht.2]
      exact twin.own n hn

/-- Twin worlds have the same entries under names that are own ones, or whose entries were the same. -/
theorem same (twin : Twin v Usual Files own B B' w w') {names : List String}
    (h : ∀ n ∈ names, n ∈ own ∨ B n = B' n) : v.Same Usual names w w' where
  left := twin.left
  right := twin.right
  entries n hn := by
    by_cases mem : n ∈ own
    · exact twin.own n mem
    · rw [(twin.others n mem).1, (twin.others n mem).2]
      exact (h n hn).resolve_left mem

variable (isolated : e.Isolated v Usual)
include isolated

/-- Worlds stay twins when their hosts change, if they stay usual and their files stay related. -/
theorem hosts {Files' : FileTree → FileTree → Prop} {h h' : Host}
    (twin : Twin v Usual Files own B B' w w') (left : Usual { w with host := h })
    (right : Usual { w' with host := h' }) (files : Files' h.files h'.files) :
    Twin v Usual Files' own B B' { w with host := h } { w' with host := h' } where
  left := left
  right := right
  files := files
  others n hn := by
    rw [show v.entry { w with host := h } = v.entry w from isolated.own rfl,
      show v.entry { w' with host := h' } = v.entry w' from isolated.own rfl]
    exact twin.others n hn
  own n hn := by
    rw [show v.entry { w with host := h } = v.entry w from isolated.own rfl,
      show v.entry { w' with host := h' } = v.entry w' from isolated.own rfl]
    exact twin.own n hn

theorem agrees_write (mem : name ∈ own) (content : ByteArray) :
    (e.write name content).Agrees (Twin v Usual Files own B B') (e.write name content) := by
  intro w w' twin
  have ends := isolated.write name content twin.left twin.right
  refine ⟨ends ▸ Outcome.alike_refl _,
    step isolated twin (.write name content w) (.write name content w') ?_⟩
  intro n hn
  obtain rfl : n = name := hn.elim id id
  refine ⟨mem, (isolated.written n content twin.left).trans ?_⟩
  rw [show v.entry _ n = _ from isolated.written n content twin.right, ends, twin.own n mem]

theorem agrees_read (mem : name ∈ own) :
    (e.read name).Agrees (Twin v Usual Files own B B') (e.read name) := by
  intro w w' twin
  have ends := isolated.read name (twin.same fun n hn => .inl (List.mem_singleton.1 hn ▸ mem))
  exact ⟨ends ▸ Outcome.alike_refl _, step isolated twin (.read name w) (.read name w') nofun⟩

theorem agrees_delete (mem : name ∈ own) :
    (e.delete name).Agrees (Twin v Usual Files own B B') (e.delete name) := by
  intro w w' twin
  obtain ⟨alike, after⟩ := isolated.delete name w w'
    (twin.same fun n hn => .inl (List.mem_singleton.1 hn ▸ mem))
  refine ⟨alike, step isolated twin (.delete name w) (.delete name w') ?_⟩
  intro n hn
  obtain rfl : n = name := hn.elim id id
  exact ⟨mem, after.entries n (.head _)⟩

/-- An execution whose output is an own entry, and whose arguments name no other that differs, keeps
worlds twins from its start to its end. -/
theorem couples_execute (last : arguments.getLast? = some name) (mem : name ∈ own)
    (shared : ∀ n ∈ fontEntry :: arguments, n ∈ own ∨ B n = B' n) :
    (e.execute arguments).Couples (Twin v Usual Files own B B')
      (Execution.Agrees (Twin v Usual Files own B B')) (Twin v Usual Files own B B')
      (e.execute arguments) := by
  -- the acts of an execution touch only its output, which is one of its arguments
  have keeps {c c' : EngineStep σ} (twin : Twin v Usual Files own B B' c.before c'.before)
      (made : Made e c) (made' : Made e c')
      (touch : ∀ n, c.act.Touches n ∨ c'.act.Touches n → arguments.getLast? = some n)
      (after : v.Same Usual (fontEntry :: arguments) c.after c'.after) :
      Twin v Usual Files own B B' c.after c'.after := by
    refine step isolated twin made made' fun n hn => ?_
    have here := touch n hn
    obtain rfl : name = n := Option.some.inj (last.symm.trans here)
    exact ⟨mem, after.entries name (.tail _ (List.mem_of_getLast? here))⟩
  intro w w' twin
  obtain ⟨alike, after⟩ := isolated.execute arguments w w' (twin.same shared)
  refine ⟨?_, keeps twin (.execute arguments w) (.execute arguments w') (fun _ => Or.rec id id) after⟩
  rcases hx : (e.execute arguments).run w with ⟨x | f | _, t⟩ <;>
    rcases hy : (e.execute arguments).run w' with ⟨y | g | _, t'⟩ <;> rw [hx, hy] at alike <;>
    try exact alike
  have started : e.Starts arguments x := ⟨w, t, hx⟩
  have started' : e.Starts arguments y := ⟨w', t', hy⟩
  have emitted : ∀ {ms ns : List (Emission (World σ) EngineEvent)},
      List.Forall₂ (Emission.Agrees (v.Same Usual (fontEntry :: arguments))) ms ns →
      (∀ m ∈ ms, m ∈ x.emissions) → (∀ n ∈ ns, n ∈ y.emissions) →
      List.Forall₂ (Emission.Agrees (Twin v Usual Files own B B')) ms ns := by
    intro ms ns h
    induction h with
    | nil => exact fun _ _ => .nil
    | cons first _ ih =>
      intro hms hns
      have hm := hms _ (.head _)
      have hn := hns _ (.head _)
      refine .cons ⟨first.event, fun s s' hs => ?_, fun s s' hs => ?_⟩
        (ih (fun m h => hms m (.tail _ h)) fun n h => hns n (.tail _ h))
      · exact keeps hs (.emit started hm s) (.emit started' hn s') (fun _ => Or.rec id id)
          (first.before s s' (hs.same shared))
      · exact keeps hs (.close started hm s) (.close started' hn s') (fun _ => Or.rec id id)
          (first.close s s' (hs.same shared))
  refine ⟨emitted alike.emissions (fun _ => id) (fun _ => id), fun s s' hs => ?_⟩
  obtain ⟨ends, after⟩ := alike.finish s s' (hs.same shared)
  exact ⟨ends, keeps hs (.finish started s) (.finish started' s') (fun _ => Or.rec id id) after⟩

end World.Twin

/-! ## The engine in memory -/

namespace MemoryEngine

/-- A world that is as another but for its files and its journal, and for the storage of its engine,
whether that is loaded, and the record of its calls. -/
structure Like (w₀ w : World MemoryEngine) : Prop where
  host : w.host = { w₀.host with files := w.host.files, journal := w.host.journal }
  engine : w.engine = { w₀.engine with
    loaded := w.engine.loaded, files := w.engine.files, calls := w.engine.calls }

namespace Like

variable {w₀ w w' : World MemoryEngine} {name : String} {content : ByteArray}

theorem refl (w : World MemoryEngine) : Like w w := ⟨rfl, rfl⟩

theorem settled (h : Like w₀ w) (hs : w₀.engine.Settled) : w.engine.Settled := by
  rw [h.engine]
  exact ⟨hs.loads, hs.executions⟩

theorem step {c : EngineStep MemoryEngine} (hs : w₀.engine.Settled)
    (made : Made MemoryEngine.engine c) (h : Like w₀ c.before) : Like w₀ c.after where
  host := by
    rw [host_of_made made]
    exact h.host
  engine := by
    rw [show c.after.engine = _ from scripted_of_made made (h.settled hs), h.engine]

theorem writeFaults (h : Like w₀ w) : w.engine.writeFaults = w₀.engine.writeFaults := by
  rw [h.engine]

theorem readFaults (h : Like w₀ w) : w.engine.readFaults = w₀.engine.readFaults := by
  rw [h.engine]

theorem deleteFaults (h : Like w₀ w) : w.engine.deleteFaults = w₀.engine.deleteFaults := by
  rw [h.engine]

theorem executions (h : Like w₀ w) : w.engine.executions = w₀.engine.executions := by
  rw [h.engine]

end Like

variable {w w' : World MemoryEngine} {name : String}

theorem write_run (name : String) (content : ByteArray) (w : World MemoryEngine) :
    ((write name content).run w).1 = (match fault? w.engine.writeFaults name with
      | some f => .raised f
      | none => .returned ()) ∧
    ((write name content).run w).2.engine.files = match fault? w.engine.writeFaults name with
      | some _ => w.engine.files
      | none => putFile w.engine.files name content := by
  unfold write
  rw [Action.run_bind, Action.run_get]
  dsimp only
  rcases fault? w.engine.writeFaults name with _ | f <;> exact ⟨rfl, rfl⟩

theorem read_run (name : String) (w : World MemoryEngine) :
    ((read name).run w).1 = match fault? w.engine.readFaults name with
      | some f => .raised f
      | none => match w.engine.files.lookup name with
        | some content => .returned content
        | none => .raised (.entryMissing name) := by
  unfold read
  rw [Action.run_bind, Action.run_get]
  dsimp only
  rcases fault? w.engine.readFaults name with _ | f
  · rcases w.engine.files.lookup name with _ | content <;> rfl
  · rfl

theorem delete_run (name : String) (w : World MemoryEngine) :
    ((delete name).run w).1 = (match fault? w.engine.deleteFaults name with
      | some f => .raised f
      | none => match w.engine.files.lookup name with
        | some _ => .returned ()
        | none => .raised (.entryMissing name)) ∧
    ((delete name).run w).2.engine.files.lookup name = match fault? w.engine.deleteFaults name with
      | some _ => w.engine.files.lookup name
      | none => none := by
  unfold delete
  rw [Action.run_bind, Action.run_get]
  dsimp only
  rcases fault? w.engine.deleteFaults name with _ | f
  · cases present : w.engine.files.lookup name with
    | some content => exact ⟨rfl, lookup_removed⟩
    | none => exact ⟨rfl, present⟩
  · exact ⟨rfl, rfl⟩

/-- Executions by one script, whose output has one name, agree. -/
theorem agrees_executionOf {P : World MemoryEngine → World MemoryEngine → Prop}
    {finish : Action (World MemoryEngine) Unit} (h : finish.Agrees P finish) :
    ∀ steps : List ExecutionStep, (executionOf finish steps).Agrees P (executionOf finish steps)
  | [] => ⟨.nil, h⟩
  | .raises f :: _ => ⟨.nil, .raise f⟩
  | .hangs :: _ => ⟨.nil, .stall⟩
  | .emits _ :: rest => ⟨.cons ⟨rfl, fun _ _ => id, fun _ _ => id⟩ (agrees_executionOf h rest).emissions,
      (agrees_executionOf h rest).finish⟩

/-- The output of an execution is the same in both worlds. -/
theorem agrees_writeOutput {w₀ : World MemoryEngine} {names : List String} (arguments : List String)
    (size : Option Nat) :
    (writeOutput arguments size).Agrees (storage.Same (Like w₀) names) (writeOutput arguments size) := by
  refine .modify fun w w' h => ?_
  split
  · rename_i name k _
    have put {w : World MemoryEngine} (files : List (String × ByteArray)) (h : Like w₀ w) :
        Like w₀ { w with engine := { w.engine with files } } :=
      ⟨h.host, congrArg (fun s : MemoryEngine => { s with files }) h.engine⟩
    refine ⟨put _ h.left, put _ h.right, fun n hn => ?_⟩
    have same : w.engine.files.lookup n = w'.engine.files.lookup n := h.entries n hn
    show (putFile _ _ _).lookup n = (putFile _ _ _).lookup n
    rw [lookup_putFile, lookup_putFile, same]
  · exact h

/-- An engine in memory whose scripts say the same each time keeps jobs apart. -/
theorem isolated {w₀ : World MemoryEngine} (settled : w₀.engine.Settled) :
    engine.Isolated storage (Like w₀) where
  time h h' := by
    rw [h.host, h'.host]
    exact ⟨rfl, rfl⟩
  elsewhere files journal h := ⟨by rw [h.host], h.engine⟩
  own h := funext fun n => congrArg (fun s : MemoryEngine => s.files.lookup n) h
  step made h := ⟨h.step settled made, by rw [host_of_made made]⟩
  load h := by
    have loads := (h.settled settled).loads
    rename_i w
    obtain ⟨host, s⟩ := w
    cases s
    cases loads
    rfl
  reset h := ⟨rfl, fun _ => rfl⟩
  write name content h h' := by
    rw [show ((engine.write name content).run _).1 = _ from (write_run name content _).1,
      show ((engine.write name content).run _).1 = _ from (write_run name content _).1,
      h.writeFaults, h'.writeFaults]
  written {w} name content _ := by
    obtain ⟨ends, files⟩ := write_run name content w
    show ((write name content).run w).2.engine.files.lookup name =
      match ((write name content).run w).1 with
      | .returned () => some content
      | _ => w.engine.files.lookup name
    rw [ends, files]
    rcases fault? w.engine.writeFaults name with _ | f
    · exact lookup_putFile.trans (if_pos rfl)
    · rfl
  read {w w'} name h := by
    have same : w.engine.files.lookup name = w'.engine.files.lookup name := h.entries name (.head _)
    rw [show ((engine.read name).run w).1 = _ from read_run name w,
      show ((engine.read name).run w').1 = _ from read_run name w', h.left.readFaults,
      h.right.readFaults, same]
  delete name w w' h := by
    have same : w.engine.files.lookup name = w'.engine.files.lookup name := h.entries name (.head _)
    obtain ⟨ends, after⟩ := delete_run name w
    obtain ⟨ends', after'⟩ := delete_run name w'
    rw [h.left.deleteFaults, same] at ends after
    rw [h.right.deleteFaults] at ends' after'
    refine ⟨ends.trans ends'.symm ▸ Outcome.alike_refl _, h.left.step settled (.delete name w),
      h.right.step settled (.delete name w'), fun n hn => ?_⟩
    rw [List.mem_singleton.1 hn]
    exact after.trans after'.symm
  execute arguments w w' h := by
    obtain ⟨script, next, ran⟩ := execute_run (h.left.settled settled) arguments
    obtain ⟨script', next', ran'⟩ := execute_run (h.right.settled settled) arguments
    rw [h.left.executions] at next
    rw [h.right.executions, next] at next'
    obtain rfl : script = script' := congrArg Prod.fst next'
    have left := h.left.step settled (.execute arguments w)
    have right := h.right.step settled (.execute arguments w')
    change Like w₀ ((execute arguments).run w).2 at left
    change Like w₀ ((execute arguments).run w').2 at right
    show Outcome.Alike _ ((execute arguments).run w).1 ((execute arguments).run w').1 ∧
      storage.Same (Like w₀) _ ((execute arguments).run w).2 ((execute arguments).run w').2
    rw [ran] at left ⊢
    rw [ran'] at right ⊢
    exact ⟨agrees_executionOf (agrees_writeOutput arguments _) _, left, right, h.entries⟩

end MemoryEngine

end VideoExport
