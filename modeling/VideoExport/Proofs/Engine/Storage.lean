import VideoExport.Proofs.Engine.Conduct
import VideoExport.Proofs.Lookup

/-!
# Working storage

`StorageView e`: the working storage of an engine as entries under names, which lie in the state of
the engine or in files of the host. A step changes at most the entries that its act touches, and a
deletion that returns leaves no entry. `v.spares` are the changes of the host that leave the entries
alone. Along the steps of a record, an entry that no act touches stays as it is
(`StorageView.entry_of_linked`), and one that was deleted and is not touched again is absent
(`StorageView.entry_of_deleted`). `MemoryEngine.storage` is the storage of the engine in memory.
-/

set_option autoImplicit false

namespace VideoExport

variable {σ : Type}

/-- The working storage of an engine, as entries under names. -/
structure StorageView (e : Engine σ) where
  entry : World σ → String → Option ByteArray
  of_files : ∀ {w w' : World σ}, w'.engine = w.engine → w'.host.files = w.host.files →
    entry w' = entry w
  frame : ∀ {c : EngineStep σ} {n : String}, Made e c → ¬ c.act.Touches n →
    entry c.after n = entry c.before n
  deleted : ∀ {c : EngineStep σ} {n : String}, Made e c → c.act = .delete n →
    c.result = .returned () → entry c.after n = none

namespace StorageView

variable {e : Engine σ} (v : StorageView e)

/-- The changes of the host that leave all entries alone. -/
def spares : HostFrame where
  Holds h h' := ∀ s, v.entry ⟨h', s⟩ = v.entry ⟨h, s⟩
  refl _ _ := rfl
  trans h₁ h₂ s := (h₂ s).trans (h₁ s)
  of_files h _ := v.of_files rfl h

variable {v} {w w' : World σ} {a b : List (EngineStep σ)} {n : String}

theorem entry_of_spared (he : w'.engine = w.engine) (hh : v.spares.toEvolution w.host w'.host) :
    v.entry w' = v.entry w := by
  obtain ⟨h, s⟩ := w
  obtain ⟨h', s'⟩ := w'
  cases he
  exact hh s

/-- What holds of an entry, and is kept by every step, holds after the steps. -/
theorem entry_invariant {P : Option ByteArray → Prop} (h : Linked e v.spares w a w')
    (step : ∀ c ∈ a, Made e c → P (v.entry c.before n) → P (v.entry c.after n))
    (hw : P (v.entry w n)) : P (v.entry w' n) :=
  h.invariant (P := fun w => P (v.entry w n))
    (fun w w' he hh hp => by rw [entry_of_spared he hh]; exact hp) step hw

/-- An entry that no step touches stays as it is. -/
theorem entry_of_linked (h : Linked e v.spares w a w') (hn : ∀ c ∈ a, ¬ c.act.Touches n) :
    v.entry w' n = v.entry w n :=
  entry_invariant (P := (· = v.entry w n)) h
    (fun c hc hm hp => (v.frame hm (hn c hc)).trans hp) rfl

/-- An entry whose deletion returned, and which no later step touches, is absent. -/
theorem entry_of_deleted {c : EngineStep σ} (h : Linked e v.spares w (a ++ c :: b) w')
    (hact : c.act = .delete n) (hres : c.result = .returned ())
    (hn : ∀ d ∈ b, ¬ d.act.Touches n) : v.entry w' n = none := by
  obtain ⟨w₁, -, h⟩ := h.split
  cases h with
  | cons h₁ h₂ hm h =>
    rw [entry_of_linked h hn]
    exact v.deleted hm hact hres

/-- Once all of some distinct entries were asked to be deleted, those whose deletion returned are absent. -/
theorem entry_of_deletions {names : List String} (nodup : names.Nodup)
    (h : Linked e v.spares w (a ++ b) w') (acts : b.map (·.act) = names.map .delete)
    {c : EngineStep σ} (mem : c ∈ b) (hact : c.act = .delete n) (hres : c.result = .returned ()) :
    v.entry w' n = none := by
  obtain ⟨first, rest, rfl⟩ := List.append_of_mem mem
  rw [← List.append_assoc] at h
  refine entry_of_deleted h hact hres fun d hd touched => ?_
  have once : ((first ++ c :: rest).map (·.act)).Nodup :=
    acts ▸ List.pairwise_map.2 (nodup.imp fun other same => other (EngineAct.delete.inj same))
  have later : d.act ∈ names.map .delete :=
    acts ▸ List.mem_map_of_mem (List.mem_append_right _ (.tail _ hd))
  obtain ⟨m, -, same⟩ := List.mem_map.1 later
  rw [← same] at touched
  cases touched
  rw [List.map_append, List.map_cons, hact, same] at once
  exact (List.nodup_cons.1 (List.nodup_append.1 once).2.1).1 (List.mem_map_of_mem hd)

/-- Storage that keeps what is written into it until it is reset: a write that fails leaves an entry
where one was, and a reset that returns leaves no entry. -/
structure Durable (v : StorageView e) : Prop where
  written : ∀ {c : EngineStep σ} {n : String} {content : ByteArray}, Made e c →
    c.act = .write n content → c.result = .returned () → v.entry c.after n = some content
  kept : ∀ {c : EngineStep σ} {n : String} {content : ByteArray}, Made e c →
    c.act = .write n content → v.entry c.before n ≠ none → v.entry c.after n ≠ none
  emptied : ∀ {c : EngineStep σ} {n : String}, Made e c → c.act = .reset →
    c.result = .returned () → v.entry c.after n = none

/-- Storage whose entries are what can be read, and in which no deletion makes an entry. -/
structure Readable (v : StorageView e) : Prop where
  read : ∀ {n : String} {content : ByteArray} {w w' : World σ},
    (e.read n).run w = (.returned content, w') → v.entry w n = some content
  absent : ∀ {c : EngineStep σ} {n : String}, Made e c → c.act = .delete n →
    v.entry c.before n = none → v.entry c.after n = none

/-- An entry whose deletion returned, or was asked for while there was none, and which no later step
touches, is absent. -/
theorem entry_of_purged {c : EngineStep σ} (readable : v.Readable)
    (h : Linked e v.spares w (a ++ c :: b) w') (hact : c.act = .delete n)
    (accepted : c.result = .returned () ∨ v.entry c.before n = none)
    (hn : ∀ d ∈ b, ¬ d.act.Touches n) : v.entry w' n = none := by
  rcases accepted with returned | absent
  · exact entry_of_deleted h hact returned hn
  · obtain ⟨w₁, -, h⟩ := h.split
    cases h with
    | cons h₁ h₂ hm h =>
      rw [entry_of_linked h hn]
      exact readable.absent hm hact absent

end StorageView

/-! ## The engine in memory -/

namespace MemoryEngine

theorem lookup_putFile {files : List (String × ByteArray)} {name n : String} {content : ByteArray} :
    (putFile files name content).lookup n = if n = name then some content else files.lookup n :=
  lookup_replaced

/-- An entry stays as it is. -/
def keeps (n : String) : Evolution (World MemoryEngine) := .same fun w => w.engine.files.lookup n

theorem keeps_put {n name : String} {content : ByteArray} (other : n ≠ name)
    (w : World MemoryEngine) :
    keeps n w { w with engine := { w.engine with files := putFile w.engine.files name content } } :=
  show (putFile w.engine.files name content).lookup n = _ by rw [lookup_putFile, if_neg other]

/-- An act keeps the entries that it does not touch. -/
theorem keeps_engine (n : String) : engine.Follows (fun act => ¬ act.Touches n) (keeps n) where
  load _ := follows_load (fun _ _ => rfl) (fun _ _ => rfl) fun _ => rfl
  reset untouched := absurd trivial untouched
  write untouched := follows_write (fun _ _ => rfl) (keeps_put untouched)
  read _ := follows_read fun _ _ => rfl
  delete untouched := follows_delete (fun _ _ => rfl) fun _ => lookup_kept untouched
  execute _ := follows_execute (fun _ _ => rfl) fun _ _ => rfl
  started {arguments} _ _ _ ran untouched := by
    have other {name : String} (last : arguments.getLast? = some name) : n ≠ name := by
      rintro rfl
      exact untouched (.finish arguments) (.inr (.inr rfl)) last
    exact follows_started ⟨_, _, ran⟩ fun w _ _ last => keeps_put (other last) w

variable {c : EngineStep MemoryEngine} {n : String}

/-- A writing that returns puts its entry; one that fails leaves the entries as they are. -/
theorem write_made {content : ByteArray} (made : Made engine c) (act : c.act = .write n content) :
    (c.result = .returned () ∧ c.after.engine.files = putFile c.before.engine.files n content) ∨
      (c.result ≠ .returned () ∧ c.after.engine.files = c.before.engine.files) := by
  cases made <;> cases act
  rename_i w
  dsimp only [engine]
  rcases ran : (write n content).run w with ⟨o, w'⟩
  obtain ⟨_, _, got, ran⟩ := Action.bind_total ran ⟨_, _, rfl⟩
  cases got
  split at ran <;> cases ran
  · exact .inr ⟨nofun, rfl⟩
  · exact .inl ⟨rfl, rfl⟩

/-- A deletion that returns drops its entry; one that fails leaves the entries as they are. -/
theorem delete_made (made : Made engine c) (act : c.act = .delete n) :
    (c.result = .returned () ∧
        c.after.engine.files = c.before.engine.files.filter fun e => e.1 ≠ n) ∨
      (c.result ≠ .returned () ∧ c.after.engine.files = c.before.engine.files) := by
  cases made <;> cases act
  rename_i w
  dsimp only [engine]
  rcases ran : (delete n).run w with ⟨o, w'⟩
  obtain ⟨_, _, got, ran⟩ := Action.bind_total ran ⟨_, _, rfl⟩
  cases got
  split at ran
  · cases ran
    exact .inr ⟨nofun, rfl⟩
  · split at ran <;> cases ran
    · exact .inl ⟨rfl, rfl⟩
    · exact .inr ⟨nofun, rfl⟩

/-- The storage of the engine in memory. -/
def storage : StorageView engine where
  entry w n := w.engine.files.lookup n
  of_files h _ := by rw [h]
  frame made untouched := (keeps_engine _).of_made
    (fun own other untouched touched => untouched (own.touches.2 (other.touches.1 touched)))
    made untouched
  deleted {c n} made act returned := by
    show c.after.engine.files.lookup n = none
    rcases delete_made made act with ⟨-, files⟩ | ⟨failed, -⟩
    · rw [files]
      exact lookup_removed
    · exact absurd returned failed

theorem durable : storage.Durable where
  written {c n content} made act returned := by
    show c.after.engine.files.lookup n = some content
    rcases write_made made act with ⟨-, files⟩ | ⟨failed, -⟩
    · rw [files, lookup_putFile, if_pos rfl]
    · exact absurd returned failed
  kept {c n content} made act present := by
    show c.after.engine.files.lookup n ≠ none
    rcases write_made made act with ⟨-, files⟩ | ⟨-, files⟩ <;> rw [files]
    · rw [lookup_putFile, if_pos rfl]
      exact nofun
    · exact present
  emptied made act _ := by
    cases made <;> cases act
    rfl

theorem readable : storage.Readable where
  read {n content w w'} ran := by
    change (read n).run w = _ at ran
    obtain ⟨_, _, got, ran⟩ := Action.bind_returned ran
    cases got
    split at ran
    · cases ran
    · obtain ⟨_, _, recorded, ran⟩ := Action.bind_returned ran
      cases recorded
      show w.engine.files.lookup n = some content
      split at ran
      · cases ran
        assumption
      · cases ran
  absent {c n} made act absent := by
    show c.after.engine.files.lookup n = none
    rcases delete_made made act with ⟨-, files⟩ | ⟨-, files⟩ <;> rw [files]
    · exact lookup_removed
    · exact absent

/-- Nothing that happens to the host concerns the engine in memory. -/
theorem storage_spares (h h' : Host) : storage.spares.toEvolution h h' := fun _ => rfl

/-! ## Besides working storage -/

/-- The scripts say the same each time: a load succeeds, and there is one way for executions. -/
structure Settled (s : MemoryEngine) : Prop where
  loads : s.loads = []
  executions : s.executions.length ≤ 1

/-- Nothing changes of the engine but its storage, whether it is loaded, and the record of its calls. -/
def scripted : Evolution (World MemoryEngine) where
  Holds w w' := w'.engine =
    { w.engine with loaded := w'.engine.loaded, files := w'.engine.files, calls := w'.engine.calls }
  refl _ := rfl
  trans h₁ h₂ := by rw [h₂, h₁]

theorem nextOf_settled {α : Type} {script : List α} (h : script.length ≤ 1) (fallback : α) :
    ∃ a, nextOf script fallback = (a, script) :=
  match script, h with
  | [], _ => ⟨_, rfl⟩
  | [a], _ => ⟨a, rfl⟩

theorem execute_run {w : World MemoryEngine} (settled : w.engine.Settled) (arguments : List String) :
    ∃ script, nextOf w.engine.executions {} = (script, w.engine.executions) ∧
      (execute arguments).run w =
        (.returned (executionOf (writeOutput arguments script.output) script.steps),
          { w with engine := { w.engine with calls := w.engine.calls ++ [.execute arguments] } }) := by
  obtain ⟨script, next⟩ := nextOf_settled settled.executions {}
  have ran : (execute arguments).run w =
      (.returned (executionOf (writeOutput arguments (nextOf w.engine.executions {}).1.output)
        (nextOf w.engine.executions {}).1.steps),
        { w with engine := { w.engine with
          executions := (nextOf w.engine.executions {}).2
          calls := w.engine.calls ++ [.execute arguments] } }) := rfl
  rw [next] at ran
  exact ⟨script, next, ran⟩

/-- An act that no script tells changes nothing that the scripts are for. -/
theorem scripted_engine :
    engine.Follows (fun act => act ≠ .load ∧ ∀ arguments, act ≠ .execute arguments) scripted where
  load other := absurd rfl other.1
  reset _ := .bind (follows_record (fun _ _ => rfl) _) fun _ => .modify fun _ => rfl
  write _ := follows_write (fun _ _ => rfl) fun _ => rfl
  read _ := follows_read fun _ _ => rfl
  delete _ := follows_delete (fun _ _ => rfl) fun _ => rfl
  execute other := absurd rfl (other.2 _)
  started ran _ := follows_started ⟨_, _, ran⟩ fun _ _ _ _ => rfl

/-- A settled engine stays what it is. -/
theorem scripted_of_made {c : EngineStep MemoryEngine} (made : Made engine c)
    (settled : c.before.engine.Settled) : scripted c.before c.after := by
  by_cases told : c.act ≠ .load ∧ ∀ arguments, c.act ≠ .execute arguments
  · refine scripted_engine.of_made ?_ made told
    rintro _ _ _ - (rfl | rfl | rfl) - <;> exact ⟨nofun, nofun⟩
  cases made with
  | load w =>
    obtain ⟨h, s⟩ := w
    obtain ⟨loads, -⟩ := settled
    cases s
    cases loads
    rfl
  | execute arguments w =>
    obtain ⟨script, -, ran⟩ := execute_run settled arguments
    show scripted w ((execute arguments).run w).2
    rw [ran]
    rfl
  | _ => exact absurd ⟨nofun, nofun⟩ told

end MemoryEngine

end VideoExport
