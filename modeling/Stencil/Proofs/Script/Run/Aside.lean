/-
  Output is out of sight.

  A script that does not mention the output variable cannot tell what has been output: it only
  ever adds to it.  So two runs that differ in the output so far do the same, and what they add is
  the same.  The relation between their states is `Machine.Aside`; all changes that code makes
  under other names keep it (`asideLockstep`).
-/
import Stencil.Proofs.Script.Grammar.Faults
import Stencil.Proofs.Script.Run.Changes
import Stencil.Proofs.Script.Run.Lockstep

namespace Stencil.Script

open Value (Holds)

/-! ## Environments -/

/-- The environments differ in their outputs only, which are `o` and `o'` with one text added to
    both. -/
structure Environment.Aside (o o' : String) (env env' : Environment) : Prop where
  others : ∀ name, name ≠ outputName → Dict.get? env' name = Dict.get? env name
  outputs : ∃ more, Dict.get? env outputName = some (.text (o ++ more)) ∧
    Dict.get? env' outputName = some (.text (o' ++ more))

namespace Environment

variable {o o' : String} {env env' : Environment}

theorem Aside.insert (h : env.Aside o o' env') {name : String} (hname : name ≠ outputName)
    (v : Value) : Environment.Aside o o' (Dict.insert env name v) (Dict.insert env' name v) where
  others other hother := by
    rw [Dict.get?_insert, Dict.get?_insert, h.others other hother]
  outputs := by
    rw [Dict.get?_insert, Dict.get?_insert, if_neg hname.symm, if_neg hname.symm]
    exact h.outputs

theorem Aside.withFunctions (h : env.Aside o o' env') (run : Nat) {fs : List Function}
    (hfs : ∀ f ∈ fs, f.name ≠ outputName) :
    (env.withFunctions run fs).Aside o o' (env'.withFunctions run fs) := by
  unfold Environment.withFunctions
  induction fs generalizing env env' with
  | nil => exact h
  | cons f rest ih =>
    rw [List.forall_mem_cons] at hfs
    exact ih (h.insert hfs.1 _) hfs.2

/-- Whatever the outputs are, more can be added to both. -/
theorem aside_insert_output
    (h : ∀ name, name ≠ outputName → Dict.get? env' name = Dict.get? env name) (more : String) :
    Environment.Aside o o' (Dict.insert env outputName (.text (o ++ more)))
      (Dict.insert env' outputName (.text (o' ++ more))) where
  others other hother := by
    rw [Dict.get?_insert, Dict.get?_insert, if_neg hother, if_neg hother, h other hother]
  outputs := ⟨more, by rw [Dict.get?_insert, if_pos rfl], by rw [Dict.get?_insert, if_pos rfl]⟩

end Environment

/-! ## States -/

/-- The states differ in the outputs in their environments only. -/
inductive Machine.Aside (o o' : String) : Machine → Machine → Prop where
  | env {env env' lexical scopes depth run} : Environment.Aside o o' env env' →
      Aside o o' ⟨env, lexical, scopes, depth, run⟩ ⟨env', lexical, scopes, depth, run⟩

namespace Machine

variable {o o' : String} {m m' : Machine} {name : String}

theorem Aside.lookup? (h : m.Aside o o' m') (hname : name ≠ outputName) :
    m'.lookup? name = m.lookup? name := by
  cases h with
  | env henv =>
    unfold Machine.lookup?
    rw [henv.others name hname]

theorem Aside.changeable? (h : m.Aside o o' m') (hname : name ≠ outputName) :
    m'.changeable? name = m.changeable? name := by
  cases h with
  | env henv =>
    unfold Machine.changeable?
    rw [henv.others name hname]

theorem Aside.setVariable (h : m.Aside o o' m') (hname : name ≠ outputName) (v : Value) :
    (m.setVariable name v).Aside o o' (m'.setVariable name v) := by
  cases h with
  | env henv =>
    unfold Machine.setVariable
    dsimp only
    split
    · exact .env henv
    · exact .env (henv.insert hname v)

theorem Aside.assign (h : m.Aside o o' m') (hname : name ≠ outputName) (v : Value) :
    Tied (Machine.Aside o o') (m.assign name v) (m'.assign name v) := by
  cases h with
  | env henv =>
    unfold Machine.assign
    dsimp only
    split
    · split
      · exact .error _
      · exact .ok (.env henv)
    · split
      · exact .error _
      · exact .ok (.env (henv.insert hname v))

theorem Aside.declare (h : m.Aside o o' m') (hname : name ≠ outputName) (kind : DeclKind)
    (v : Value) : Tied (Machine.Aside o o') (m.declare kind name v) (m'.declare kind name v) := by
  cases h with
  | env henv =>
    have hset := henv.insert hname v
    cases kind with
    | varDecl =>
      simp only [Machine.declare]
      split
      · exact .ok (.env henv)
      · exact .ok (.env hset)
    | letDecl | constDecl =>
      simp only [Machine.declare]
      split
      · split
        · exact .error _
        · exact .ok (.env hset)
      · split
        · exact .error _
        · exact .ok (.env henv)

end Machine

namespace Slot

variable {o o' : String} {m m' : Machine} {s : Slot}

theorem read_aside (h : m.Aside o o' m') (hroot : s.root ≠ outputName) : s.read m' = s.read m := by
  unfold read
  rw [h.lookup? hroot]

end Slot

/-! ## Effects -/

section

variable {o o' : String} {m m' : Machine} {E S : Fault → Prop} {pos : Position} {s : Slot}
  (h : m.Aside o o' m') (hE : ∀ {fault : Fault}, fault.isOperational = true → E fault)

include h hE

theorem writeSlot_aside (hroot : s.root ≠ outputName) (v : Value) :
    (writeSlot pos s v m).Alike (Machine.Aside o o') E S (writeSlot pos s v m') :=
  writeSlot_alike h hE
    (Slot.write_tied (h.changeable? hroot) (h.setVariable hroot) (h.assign hroot v))

theorem declareName_aside {name : String} (hname : name ≠ outputName) (kind : DeclKind)
    (v : Value) : (declareName pos kind name v m).Alike (Machine.Aside o o') E S
      (declareName pos kind name v m') :=
  declareName_alike h hE (h.declare hname kind v)

theorem changeArray_aside (hroot : s.root ≠ outputName) (pop : Bool) (items args : List Value) :
    (changeArray pos s pop items args m).Alike (Machine.Aside o o') E S
      (changeArray pos s pop items args m') :=
  changeArray_alike h hE (h.changeable? hroot) (h.setVariable hroot) pop items args

omit hE in
/-- The output function adds the same text in both states. -/
theorem appendOutput_aside (args : List Value) :
    (appendOutput pos args m).Alike (Machine.Aside o o') E S (appendOutput pos args m') := by
  cases h with
  | env henv =>
    obtain ⟨more, hout, hout'⟩ := henv.outputs
    rw [appendOutput_apply, appendOutput_apply, hout, hout']
    dsimp only
    rw [foldl_display, foldl_display (o' ++ more), String.append_assoc, String.append_assoc]
    exact .done _ (.env
      (Environment.aside_insert_output henv.others _))

end

/-- The function and those declared in it do not mention the name. -/
def Function.Avoids (name : String) : Function → Prop := Function.UsesOnly fun u => u.2 ≠ name

theorem ne_outputFault {fault : Fault} (h : fault.isOperational = true) :
    fault ≠ .misuse (.outputNotString outputName) := by
  rintro rfl
  cases h

/-- Code that does not mention the output keeps it out of sight. -/
def asideLockstep (o o' : String) (maxDepth : Nat) :
    Lockstep (Function.Avoids outputName) maxDepth maxDepth where
  Rel := Machine.Aside o o'
  Allowed u := u.2 ≠ outputName
  Meets fault := fault ≠ .misuse (.outputNotString outputName)
  Skips _ := False
  meets := ne_outputFault
  allowed_call hf u hu := hf u (Stmt.usesList_subset_usesWhole _ hu)
  depth h := by
    cases h
    rfl
  limit := Or.inl ⟨rfl, fun h => by cases h⟩
  lookup h hname := h.lookup? hname
  read h hroot := Slot.read_aside h hroot
  held h hroot := Slot.held_congr (h.changeable? hroot)
  write h hroot := writeSlot_aside h ne_outputFault hroot _
  change h hroot := changeArray_aside h ne_outputFault hroot _ _ _
  append h := appendOutput_aside h _
  declare h hname := declareName_aside h ne_outputFault hname _ _
  block body h := by
    cases h with
    | env henv =>
      rw [Machine.hoist_of_cons body rfl, Machine.hoist_of_cons body rfl]
      exact .env henv
  leave h := by
    cases h with
    | env henv => exact .env henv
  call run f args h := by
    cases h with
    | env henv =>
      rw [Machine.hoist_of_cons f.body rfl, Machine.hoist_of_cons f.body rfl]
      exact .env henv
  endCall h h' := by
    cases h
    cases h' with
    | env henv => exact .env henv

/-! ## Whole runs -/

/-- Two runs ended in the same way, without a fault of output, and their environments differ in
    their outputs only. -/
inductive Ending.Aside (o o' : String) : Ending Unit → Ending Unit → Prop where
  | done {env env'} : env.Aside o o' env' → Ending.Aside o o' (.done () env) (.done () env')
  | failed {e env env'} : e.fault ≠ .misuse (.outputNotString outputName) → env.Aside o o' env' →
      Ending.Aside o o' (.failed e env) (.failed e env')
  | unfinished : Ending.Aside o o' .unfinished .unfinished

theorem lastRunMembers_insert_text (env : Environment) (name o o' : String) :
    Value.lastRunMembers (Dict.insert env name (.text o))
      = Value.lastRunMembers (Dict.insert env name (.text o')) := by
  induction env with
  | nil => rfl
  | cons p rest ih =>
    obtain ⟨key, v⟩ := p
    rw [Dict.insert, Dict.insert]
    split
    · rfl
    · split
      · rfl
      · rw [Value.lastRunMembers, Value.lastRunMembers, ih]

/-- A run of statements from two states that differ in the output so far. -/
theorem runProgram_aside {o o' : String} (limits : Limits) {body : List Stmt}
    (huses : ∀ u ∈ Stmt.usesWhole body, u.2 ≠ outputName) {env env' : Environment}
    (haside : env.Aside o o' env') (hrun : env'.freshRun = env.freshRun)
    (henv : env.Holds (Function.Avoids outputName)) :
    Ending.Aside o o' (runProgram limits body env) (runProgram limits body env') := by
  have hbody : Stmt.OverList (fun _ => True) (Function.Avoids outputName) body :=
    Stmt.overList_usesOnly huses
  have hown : ∀ u ∈ Stmt.usesList body, u.2 ≠ outputName := fun u hu =>
    huses u (Stmt.usesList_subset_usesWhole body hu)
  have hstart : Machine.Aside o o' ((Machine.start env.freshRun env).hoist body)
      ((Machine.start env.freshRun env').hoist body) := by
    rw [Machine.hoist_of_nil body rfl, Machine.hoist_of_nil body rfl]
    exact .env (haside.withFunctions _ fun f hf => hown _ (mem_usesList_of_declared hf))
  have halike := (asideLockstep o o' limits.maxDepth).execProgram_alike (closed_usesOnly _)
    limits.steps hbody hown (henv.start env.freshRun) hstart
  rw [runProgram, runProgram, hrun]
  generalize execProgram limits.maxDepth limits.steps body (.start env.freshRun env) = out
    at halike ⊢
  generalize execProgram limits.maxDepth limits.steps body (.start env.freshRun env') = out'
    at halike ⊢
  cases halike with
  | done _ hrel =>
    cases hrel with
    | env henv' => exact .done henv'
  | failed hmeets hrel =>
    cases hrel with
    | env henv' =>
      exact .failed hmeets henv'
  | skipped hskip => exact hskip.elim
  | exhausted => exact .unfinished

/-- **What has been output is out of sight.**  Let a script and the functions in an environment not
    mention the output variable.  Run twice, from different texts output so far, the script ends in
    the same way, with the same error if it fails, which is not that the output is no string; and
    all other variables end up the same, and the same text is added to the output. -/
theorem execute_aside (limits : Limits) (script : String) (env : Environment) (o o' : String)
    (hscript : ∀ body, parse script = .ok body → ∀ u ∈ Stmt.usesWhole body, u.2 ≠ outputName)
    (henv : Environment.Holds (Function.Avoids outputName) (Dict.insert env outputName (.text o))) :
    Ending.Aside o o' (execute limits script (Dict.insert env outputName (.text o)))
      (execute limits script (Dict.insert env outputName (.text o'))) := by
  have hstart : Environment.Aside o o' (Dict.insert env outputName (.text o))
      (Dict.insert env outputName (.text o')) := by
    have hadded : Environment.Aside o o' (Dict.insert env outputName (.text (o ++ "")))
        (Dict.insert env outputName (.text (o' ++ ""))) :=
      Environment.aside_insert_output (fun _ _ => rfl) ""
    rwa [String.append_empty, String.append_empty] at hadded
  rw [execute, execute]
  cases hparse : parse script with
  | error e =>
    refine .failed (fun heq => ?_) hstart
    have := (parse_fault hparse).1
    rw [ScriptError.isSyntax, heq] at this
    cases this
  | ok body =>
    exact runProgram_aside limits (hscript body hparse) hstart
      (congrArg (· + 1) (lastRunMembers_insert_text env outputName o' o)) henv

/-- Output under another name, and then a fault: what was output before stays out of sight. -/
theorem execute_aside_renamed :
    let script := "let f = append; f(\"a\"); missing;"
    let env : Environment := [(Native.append.name, .native .append)]
    let started (o : String) : Environment := Dict.insert env outputName (.text o)
    (∀ body, parse script = .ok body → ∀ u ∈ Stmt.usesWhole body, u.2 ≠ outputName) ∧
    (started "x").Holds (Function.Avoids outputName) ∧
    Ending.Aside "x" "y" (execute ⟨64, 100⟩ script (started "x"))
      (execute ⟨64, 100⟩ script (started "y")) ∧
    execute ⟨64, 100⟩ script (started "x") = .failed ⟨.undefinedVariable "missing", ⟨0, 24⟩⟩
      [(outputName, .text "xa"), (Native.append.name, .native .append),
        ("f", .native .append)] := by
  intro script env started
  have hlexemes : lexemes script = .ok
      [⟨.keyword .kwLet, ⟨0, 0⟩, false⟩, ⟨.name "f", ⟨0, 4⟩, false⟩,
       ⟨.symbol .assign, ⟨0, 6⟩, false⟩, ⟨.name "append", ⟨0, 8⟩, false⟩,
       ⟨.symbol .semicolon, ⟨0, 14⟩, false⟩, ⟨.name "f", ⟨0, 16⟩, false⟩,
       ⟨.symbol .leftParen, ⟨0, 17⟩, false⟩, ⟨.text "a", ⟨0, 18⟩, false⟩,
       ⟨.symbol .rightParen, ⟨0, 21⟩, false⟩, ⟨.symbol .semicolon, ⟨0, 22⟩, false⟩,
       ⟨.name "missing", ⟨0, 24⟩, false⟩, ⟨.symbol .semicolon, ⟨0, 31⟩, false⟩] := by
    decide +kernel
  have hparse : parse script = .ok
      [.declare .letDecl [⟨"f", ⟨0, 4⟩, some (.name ⟨0, 8⟩ "append")⟩],
       .expr (.call ⟨0, 16⟩ (.name ⟨0, 16⟩ "f") [.text ⟨0, 18⟩ "a"]),
       .expr (.name ⟨0, 24⟩ "missing")] := by
    rw [parse, hlexemes]
    rfl
  have hscript : ∀ body, parse script = .ok body → ∀ u ∈ Stmt.usesWhole body, u.2 ≠ outputName := by
    intro body hbody
    rw [hparse] at hbody
    cases hbody
    decide
  have henv : (started "x").Holds (Function.Avoids outputName) := fun _ hf => by cases hf
  refine ⟨hscript, henv, execute_aside ⟨64, 100⟩ script env "x" "y" hscript henv, ?_⟩
  rw [execute, hparse]
  rfl

end Stencil.Script
