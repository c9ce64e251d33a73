import VideoExport.Engine.Memory
import VideoExport.Proofs.Engine.Recording

/-!
# What engines change

`e.Follows P G`: what the engine `e` does, as far as its acts have `P`, changes the world by `G`. Then
so does each step that it makes (`Engine.Follows.of_made`). What the operations of the engine in memory
change is found from what becomes of the parts of its state: an evolution that takes in the record of its
calls takes in a reading, and one that takes in the replacement of an entry takes in a writing.
-/

set_option autoImplicit false

namespace VideoExport

/-! ## Executions -/

namespace Execution

variable {ω ε : Type} {E : Evolution ω} {x : Execution ω ε}

theorem Follows.after {change : ω → ω} (h : x.Follows E) (hc : ∀ s, E s (change s)) :
    (x.after change).Follows E := by
  unfold Execution.after
  split
  · rename_i none
    refine ⟨fun m hm => ?_, fun m hm => ?_, .bind (.modify hc) fun _ => h.finish⟩ <;>
      exact absurd (none ▸ hm) List.not_mem_nil
  · rename_i first rest some
    have head : first ∈ x.emissions := some ▸ .head _
    have tail {m} (hm : m ∈ rest) : m ∈ x.emissions := some ▸ .tail _ hm
    refine ⟨fun m hm s => ?_, fun m hm s => ?_, h.finish⟩
    · rcases List.mem_cons.1 hm with rfl | hm
      · exact E.trans (hc s) (h.before _ head _)
      · exact h.before m (tail hm) s
    · rcases List.mem_cons.1 hm with rfl | hm
      · exact h.close _ head s
      · exact h.close m (tail hm) s

theorem Follows.prepend {earlier : List (Emission ω ε)} (h : x.Follows E)
    (before : ∀ m ∈ earlier, ∀ s, E s (m.before s)) (close : ∀ m ∈ earlier, ∀ s, E s (m.close s)) :
    (x.prepend earlier).Follows E where
  before := List.forall_mem_append.2 ⟨before, h.before⟩
  close := List.forall_mem_append.2 ⟨close, h.close⟩
  finish := h.finish

end Execution

/-! ## Engines -/

variable {σ : Type}

/-- What an engine does, as far as its acts have `P`, changes the world by `G`. -/
structure Engine.Follows (e : Engine σ) (P : EngineAct → Prop) (G : Evolution (World σ)) : Prop where
  load : P .load → e.load.Follows G
  reset : P .reset → e.reset.Follows G
  write : ∀ {name content}, P (.write name content) → (e.write name content).Follows G
  read : ∀ {name}, P (.read name) → (e.read name).Follows G
  delete : ∀ {name}, P (.delete name) → (e.delete name).Follows G
  execute : ∀ {arguments}, P (.execute arguments) → (e.execute arguments).Follows G
  started : ∀ {arguments x w w'}, (e.execute arguments).run w = (.returned x, w') →
    (∀ act, act.IsOf arguments → P act) → x.Follows G

namespace Engine.Follows

variable {e : Engine σ} {P : EngineAct → Prop} {G G' : Evolution (World σ)}

/-- A step whose act has `P` changes the world by `G`, if `P` makes no difference between the acts of
one execution. -/
theorem of_made (h : e.Follows P G)
    (executing : ∀ {arguments act act'}, act.IsOf arguments → act'.IsOf arguments → P act → P act')
    {c : EngineStep σ} (made : Made e c) (hp : P c.act) : G c.before c.after := by
  have execution {arguments : List String} {x : Execution (World σ) EngineEvent}
      (started : e.Starts arguments x) (own : c.act.IsOf arguments) : x.Follows G := by
    obtain ⟨_, _, started⟩ := started
    exact h.started started fun _ other => executing own other hp
  cases made with
  | load w => exact h.load hp w
  | reset w => exact h.reset hp w
  | write name content w => exact h.write hp w
  | read name w => exact h.read hp w
  | delete name w => exact h.delete hp w
  | execute arguments w => exact h.execute hp w
  | emit started mem w => exact (execution started (.inl rfl)).before _ mem w
  | close started mem w => exact (execution started (.inr (.inl rfl))).close _ mem w
  | finish started w => exact (execution started (.inr (.inr rfl))).finish w

theorem any (e : Engine σ) (P : EngineAct → Prop) : e.Follows P .any where
  load _ := .any _
  reset _ := .any _
  write _ := .any _
  read _ := .any _
  delete _ := .any _
  execute _ := .any _
  started _ _ := ⟨fun _ _ _ => trivial, fun _ _ _ => trivial, .any _⟩

theorem mono (h : e.Follows P G) (hG : ∀ w w', G w w' → G' w w') : e.Follows P G' where
  load hp := (h.load hp).mono hG
  reset hp := (h.reset hp).mono hG
  write hp := (h.write hp).mono hG
  read hp := (h.read hp).mono hG
  delete hp := (h.delete hp).mono hG
  execute hp := (h.execute hp).mono hG
  started ran hp :=
    have hx := h.started ran hp
    ⟨fun m hm w => hG _ _ (hx.before m hm w), fun m hm w => hG _ _ (hx.close m hm w),
      hx.finish.mono hG⟩

end Engine.Follows

/-! ## The engine in memory -/

namespace MemoryEngine

variable {E : Evolution (World MemoryEngine)} {name : String} {arguments : List String}

section
variable (noted : ∀ (w : World MemoryEngine) calls, E w { w with engine := { w.engine with calls } })
include noted

theorem follows_record (call : EngineCall) : (record call).Follows E := .modify fun w => noted w _

theorem follows_load
    (scripts : ∀ (w : World MemoryEngine) loads, E w { w with engine := { w.engine with loads } })
    (loaded : ∀ w : World MemoryEngine, E w { w with engine := { w.engine with loaded := true } }) :
    load.Follows E := by
  refine .bind (follows_record noted _) fun _ => .bind .get fun _ =>
    .bind (.modify fun w => scripts w _) fun _ => ?_
  split
  · exact .modify loaded
  · exact .raise _
  · exact .stall

theorem follows_write {content : ByteArray} (put : ∀ w : World MemoryEngine,
    E w { w with engine := { w.engine with files := putFile w.engine.files name content } }) :
    (write name content).Follows E := by
  refine .bind .get fun w => ?_
  split
  · exact .bind (follows_record noted _) fun _ => .raise _
  · exact .bind (follows_record noted _) fun _ => .modify put

theorem follows_read : (read name).Follows E := by
  refine .bind .get fun w => ?_
  split
  · exact .bind (follows_record noted _) fun _ => .raise _
  · refine .bind (follows_record noted _) fun _ => ?_
    split
    · exact .pure _
    · exact .raise _

theorem follows_delete (drop : ∀ w : World MemoryEngine,
    E w { w with engine := { w.engine with files := w.engine.files.filter fun e => e.1 ≠ name } }) :
    (delete name).Follows E := by
  refine .bind .get fun w => ?_
  split
  · exact .bind (follows_record noted _) fun _ => .raise _
  · split
    · exact .bind (follows_record noted _) fun _ => .modify drop
    · exact .bind (follows_record noted _) fun _ => .raise _

theorem follows_execute (scripts : ∀ (w : World MemoryEngine) executions,
    E w { w with engine := { w.engine with executions } }) : (execute arguments).Follows E :=
  .bind (follows_record noted _) fun _ => .bind .get fun _ =>
    .bind (.modify fun w => scripts w _) fun _ => .pure _

end

theorem follows_executionOf {finish : Action (World MemoryEngine) Unit} (hf : finish.Follows E) :
    ∀ steps : List ExecutionStep, (executionOf finish steps).Follows E
  | [] => ⟨nofun, nofun, hf⟩
  | .emits _ :: rest => (follows_executionOf hf rest).prepend
      (List.forall_mem_singleton.2 E.refl) (List.forall_mem_singleton.2 E.refl)
  | .raises f :: _ => ⟨nofun, nofun, .raise f⟩
  | .hangs :: _ => ⟨nofun, nofun, .stall⟩

/-- What an execution changes is its output, under the last of its arguments. -/
theorem follows_started {x : Execution (World MemoryEngine) EngineEvent}
    (started : engine.Starts arguments x)
    (put : ∀ (w : World MemoryEngine) name content, arguments.getLast? = some name →
      E w { w with engine := { w.engine with files := putFile w.engine.files name content } }) :
    x.Follows E := by
  obtain ⟨w, w', ran⟩ := started
  cases ran
  refine follows_executionOf (.modify fun w => ?_) _
  split
  · exact put w _ _ ‹_›
  · exact E.refl w

/-- The engine in memory does nothing to the host. -/
theorem still_engine : engine.Follows (fun _ => True) (.same World.host) where
  load _ := follows_load (fun _ _ => rfl) (fun _ _ => rfl) fun _ => rfl
  reset _ := .bind (follows_record (fun _ _ => rfl) _) fun _ => .modify fun _ => rfl
  write _ := follows_write (fun _ _ => rfl) fun _ => rfl
  read _ := follows_read fun _ _ => rfl
  delete _ := follows_delete (fun _ _ => rfl) fun _ => rfl
  execute _ := follows_execute (fun _ _ => rfl) fun _ _ => rfl
  started ran _ := follows_started ⟨_, _, ran⟩ fun _ _ _ _ => rfl

/-- The engine in memory leaves the host alone. -/
theorem host_of_made {c : EngineStep MemoryEngine} (made : Made engine c) :
    c.after.host = c.before.host :=
  still_engine.of_made (fun _ _ => id) made trivial

end MemoryEngine

end VideoExport
