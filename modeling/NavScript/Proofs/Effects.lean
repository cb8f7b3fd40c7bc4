import NavScript.Proofs.Machine

/-!
# What actions do to the stack

`Turns f locals top o left` says that an action takes the values `top` off the stack, whatever lies
below them, and leaves in their place what `left` makes of the attempt `o`; it fails where the attempt
is a failure. What lies below stays (`Turns.frame`), and actions run one after another
(`Turns.bind`). A node that leaves one value `Gives` it.
-/

namespace NavScript

variable {α β γ δ : Type} {locals : List (String × Value)} {top : List Value}

/-- A run that starts with a log ends as an attempt says: its result is made of the attempt's value
and of the log it ends with. -/
def Ends (o : Attempt Access α) (made : α → List Access → γ) (log : List Access)
    (run : Except Crash γ) : Prop :=
  match o with
  | .failed => ∃ crash, run = .error crash
  | .done a s => ∃ log' : List Access, (log' : Multiset Access) = log + s ∧ run = .ok (made a log')

namespace Ends

theorem ofPure {a : α} {made : α → List Access → γ} {log : List Access} {run : Except Crash γ}
    (h : run = .ok (made a log)) : Ends (pure a) made log run :=
  ⟨log, (Multiset.add_zero _).symm, h⟩

/-- Runs one after another end as their attempts one after another say. -/
theorem bind {o : Attempt Access α} {k : α → Attempt Access β} {made : α → List Access → γ}
    {last : β → List Access → δ} {log : List Access} {run : Except Crash γ}
    {g : γ → Except Crash δ} (h : Ends o made log run)
    (hg : ∀ a ∈ o, ∀ log', Ends (k a) last log' (g (made a log'))) :
    Ends (o >>= k) last log (run >>= g) := by
  cases o with
  | failed =>
    obtain ⟨crash, rfl⟩ := h
    exact ⟨crash, rfl⟩
  | done a s =>
    obtain ⟨mid, hmid, rfl⟩ := h
    have second := hg a ⟨s, rfl⟩ mid
    show Ends ((k a).after s) last log (g (made a mid))
    cases hk : k a with
    | failed =>
      rw [hk] at second
      exact second
    | done b t =>
      rw [hk] at second
      obtain ⟨log', hlog', hrun⟩ := second
      refine ⟨log', ?_, hrun⟩
      rw [hlog', hmid, Multiset.add_assoc]

theorem map_iff {φ : α → β} {o : Attempt Access α} {made : β → List Access → γ}
    {log : List Access} {run : Except Crash γ} :
    Ends (φ <$> o) made log run ↔ Ends o (fun a => made (φ a)) log run := by
  cases o with
  | failed => rfl
  | done a s =>
    show Ends (.done (φ a) (s + 0)) made log run ↔ _
    rw [Multiset.add_zero]
    rfl

end Ends

def Turns (f : Action) (locals : List (String × Value)) (top : List Value) (o : Attempt Access α)
    (left : α → List Value) : Prop :=
  ∀ stack log, Ends o (fun a log' => ⟨left a ++ stack, locals, log'⟩) log
    (f ⟨top ++ stack, locals, log⟩)

namespace Turns

variable {f g : Action} {o : Attempt Access α} {left : α → List Value}

theorem ofPure {a : α}
    (h : ∀ stack log, f ⟨top ++ stack, locals, log⟩ = .ok ⟨left a ++ stack, locals, log⟩) :
    Turns f locals top (pure a) left :=
  fun stack log => .ofPure (h stack log)

theorem bind {k : α → Attempt Access β} {last : β → List Value} (hf : Turns f locals top o left)
    (hg : ∀ a ∈ o, Turns g locals (left a) (k a) last) :
    Turns (fun m => f m >>= g) locals top (o >>= k) last :=
  fun stack log => (hf stack log).bind fun a ha log' => hg a ha stack log'

/-- What lies below stays. -/
theorem frame (h : Turns f locals top o left) (below : List Value) :
    Turns f locals (top ++ below) o (fun a => left a ++ below) := by
  intro stack log
  have run := h (below ++ stack) log
  simp only [List.append_assoc] at run ⊢
  exact run

theorem map_iff {φ : α → β} {last : β → List Value} :
    Turns f locals top (φ <$> o) last ↔ Turns f locals top o fun a => last (φ a) :=
  forall_congr' fun _ => forall_congr' fun _ => Ends.map_iff

end Turns

namespace World

/-- A read of a member, which is logged. -/
def reads (W : World) (receiver : Value) (name : String) : Attempt Access Value :=
  if receiver.isNull then .failed
  else
    match W.read receiver name with
    | some v => .done v {⟨receiver, name⟩}
    | none => .failed

def calls (W : World) (receiver : Value) (name : String) (args : List Value) :
    Attempt Access Value :=
  if receiver.isNull then .failed
  else
    match W.call receiver name args with
    | some v => .done v {⟨receiver, name ++ "()"⟩}
    | none => .failed

end World

namespace Machine

variable {W : World}

/-- One value on its own. -/
abbrev alone (v : Value) : List Value := [v]

theorem turns_onTop {f : Value → Except Crash Value} {v u : Value} (h : f v = .ok u) :
    Turns (onTop f) locals [v] (pure u) alone := by
  refine .ofPure fun stack log => ?_
  show (do return push (← f v) ⟨stack, locals, log⟩) = _
  rw [h]
  rfl

theorem turns_readTop (v : Value) (name : String) :
    Turns (readTop W name) locals [v] (W.reads v name) alone := by
  intro stack log
  have run : readTop W name ⟨[v] ++ stack, locals, log⟩ =
      if v.isNull then .error .nullReceiver
      else
        match W.read v name with
        | some u => .ok ((accessed v name ⟨stack, locals, log⟩).push u)
        | none => .error .noMember := rfl
  rw [run]
  unfold World.reads
  cases hnull : v.isNull with
  | true => exact ⟨.nullReceiver, rfl⟩
  | false =>
    cases hread : W.read v name with
    | none => exact ⟨.noMember, rfl⟩
    | some u => exact ⟨log ++ [⟨v, name⟩], rfl, rfl⟩

theorem turns_callTop (v : Value) (name : String) (args : List Value) :
    Turns (callTop W name args.length) locals (args.reverse ++ [v]) (W.calls v name args)
      alone := by
  intro stack log
  have run : callTop W name args.length ⟨args.reverse ++ [v] ++ stack, locals, log⟩ =
      if v.isNull then .error .nullReceiver
      else
        match W.call v name args with
        | some u => .ok ((accessed v (name ++ "()") ⟨stack, locals, log⟩).push u)
        | none => .error .noMember := by
    have front : (args.reverse ++ [v] ++ stack).take args.length = args.reverse := by
      rw [List.append_assoc, ← List.length_reverse, List.take_left]
    have rest : (args.reverse ++ [v] ++ stack).drop args.length = v :: stack := by
      rw [List.append_assoc, ← List.length_reverse, List.drop_left]
      rfl
    unfold callTop
    simp only [front, rest, List.reverse_reverse]
    rfl
  rw [run]
  unfold World.calls
  cases hnull : v.isNull with
  | true => exact ⟨.nullReceiver, rfl⟩
  | false =>
    cases hcall : W.call v name args with
    | none => exact ⟨.noMember, rfl⟩
    | some u => exact ⟨log ++ [⟨v, name ++ "()"⟩], rfl, rfl⟩

theorem turns_branch {yes no : Action} {o : Attempt Access α} {left : α → List Value} {b : Bool}
    (h : Turns (if b then yes else no) locals top o left) :
    Turns (branch yes no) locals (.ofBool b :: top) o left := by
  intro stack log
  have run := h stack log
  cases b with
  | true => exact run
  | false => exact run

theorem turns_bindTop {x : String} {body : Action} {v : Value} {o : Attempt Access α}
    {left : α → List Value} (h : Turns body ((x, v) :: locals) top o left) :
    Turns (bindTop x body) locals (v :: top) o left := by
  intro stack log
  have run : bindTop x body ⟨v :: top ++ stack, locals, log⟩ =
      body ⟨top ++ stack, (x, v) :: locals, log⟩ >>= fun m => .ok m.leave := rfl
  rw [run, ← bind_pure o]
  exact (h stack log).bind fun a _ log' => .ofPure rfl

theorem turns_dup (v : Value) :
    Turns (stackOp .dup) locals [v] (pure () : Attempt Access Unit) fun _ => [v, v] :=
  .ofPure fun _ _ => rfl

theorem turns_pop (v : Value) :
    Turns (stackOp .pop) locals [v] (pure () : Attempt Access Unit) fun _ => [] :=
  .ofPure fun _ _ => rfl

theorem turns_collectTop (r : Reduction) (items : List Value) :
    Turns (collectTop r) locals [.seq items] (pure (.collected r items)) alone :=
  .ofPure fun _ _ => rfl

theorem turns_runAll_one {f : Action} {o : Attempt Access α} {left : α → List Value}
    (h : Turns f locals top o left) : Turns (runAll [f]) locals top o left := by
  have run (m : Machine) : runAll [f] m = f m := bind_pure (f m)
  rw [funext run]
  exact h

theorem turns_runAll_cons {f : Action} {fs : List Action} {o : Attempt Access α}
    {left : α → List Value} {k : α → Attempt Access β} {last : β → List Value}
    (h : Turns f locals top o left) (hfs : ∀ a ∈ o, Turns (runAll fs) locals (left a) (k a) last) :
    Turns (runAll (f :: fs)) locals top (o >>= k) last :=
  h.bind hfs

section

variable {op : StageKind} {x : String} {body : Action} {result : Value → Attempt Access Value}
  {added : Value → Value → List Value} {items : List Value}

theorem ends_single {stack : List Value} {log : List Access} {o : Attempt Access Value}
    (h : Turns body locals [] o alone) :
    Ends o (fun v log' => (v, ⟨stack, locals, log'⟩)) log (single body ⟨stack, locals, log⟩) := by
  have run : single body ⟨stack, locals, log⟩ =
      body ⟨stack, locals, log⟩ >>= fun m => m.pop >>= fun taken =>
        if taken.2.stack.length = stack.length then .ok taken else .error .unbalanced := rfl
  rw [run, ← bind_pure o]
  refine (h stack log).bind fun v _ log' => ?_
  show Ends _ _ _ (if stack.length = stack.length then _ else _)
  rw [if_pos rfl]
  exact .ofPure rfl

/-- A stage that has made `out` so far makes more of more elements. -/
theorem ends_stages
    (h : ∀ item ∈ items, Turns body ((x, item) :: locals) [] (result item) alone)
    (hadded : ∀ item ∈ items, ∀ u ∈ result item, staged op item u = .ok (added item u))
    (stack out : List Value) (log : List Access) :
    Ends (items.mapM fun item => added item <$> result item)
      (fun new log' => (out ++ new.flatten, (⟨stack, locals, log'⟩ : Machine))) log
      (items.foldlM (stage op x body) (out, ⟨stack, locals, log⟩)) := by
  induction items generalizing out log with
  | nil =>
    refine ⟨log, (Multiset.add_zero _).symm, ?_⟩
    show Except.ok (out, _) = Except.ok (out ++ [], _)
    rw [List.append_nil]
  | cons item rest ih =>
    have hitem := h item (List.mem_cons_self ..)
    have hstaged := hadded item (List.mem_cons_self ..)
    have ih := ih (fun i hi => h i (List.mem_cons_of_mem _ hi))
      (fun i hi => hadded i (List.mem_cons_of_mem _ hi))
    have first : Ends (added item <$> result item)
        (fun new log' => (out ++ new, (⟨stack, locals, log'⟩ : Machine))) log
        (stage op x body (out, ⟨stack, locals, log⟩) item) := by
      rw [← bind_pure_comp]
      refine (ends_single hitem).bind fun u hu log' => ?_
      show Ends _ _ _ (do return (out ++ (← staged op item u), _))
      rw [hstaged u hu]
      exact .ofPure rfl
    rw [List.mapM_cons, List.foldlM_cons]
    refine first.bind fun new _ mid => ?_
    rw [bind_pure_comp]
    refine Ends.map_iff.2 ?_
    have others := ih (out ++ new) mid
    simp only [List.flatten_cons, ← List.append_assoc]
    exact others

theorem turns_pipeTop
    (h : ∀ item ∈ items, Turns body ((x, item) :: locals) [] (result item) alone)
    (hadded : ∀ item ∈ items, ∀ u ∈ result item, staged op item u = .ok (added item u)) :
    Turns (pipeTop op x body) locals [.seq items]
      (List.flatten <$> items.mapM fun item => added item <$> result item)
      fun new => [.seq new] := by
  intro stack log
  have run : pipeTop op x body ⟨[.seq items] ++ stack, locals, log⟩ =
      items.foldlM (stage op x body) ([], ⟨stack, locals, log⟩) >>= fun made =>
        .ok (made.2.push (.seq made.1)) := rfl
  rw [run, ← bind_pure_comp]
  exact (ends_stages h hadded stack [] log).bind fun new _ log' => .ofPure rfl

end

end Machine

section

open Machine

variable {W : World} {n : Node} {o : Attempt Access Value} {span : Span} {ty : Option Ty}

/-- The node leaves one value, the attempt's, in the place of `top`. -/
def Gives (W : World) (locals : List (String × Value)) (n : Node) (top : List Value)
    (o : Attempt Access Value) : Prop :=
  Turns (exec W n) locals top o alone

theorem gives_mk {kind : Kind Node} : Gives W locals ⟨span, ty, kind⟩ top o ↔
    Turns (execKind W ty (kind.map fun c => (c, exec W c))) locals top o alone := by
  unfold Gives
  rw [exec_mk]

theorem gives_literal (l : Literal) : Gives W locals ⟨span, ty, .literal l⟩ [] (pure (.lit l)) :=
  gives_mk.2 (.ofPure fun _ _ => rfl)

theorem gives_this : Gives W locals ⟨span, ty, .this⟩ [] (pure W.this) :=
  gives_mk.2 (.ofPure fun _ _ => rfl)

theorem gives_stacked (v : Value) : Gives W locals ⟨span, ty, .stacked⟩ [v] (pure v) :=
  gives_mk.2 (.ofPure fun _ _ => rfl)

theorem gives_localRef {x : String} {v : Value} (h : locals.lookup x = some v) :
    Gives W locals ⟨span, ty, .localRef x⟩ [] (pure v) := by
  exact gives_mk.2 (.ofPure fun stack log => execKind_localRef_some h)

theorem gives_typeRef (t : Ty) :
    Gives W locals ⟨span, ty, .typeRef t⟩ [] (pure (.type t.render)) :=
  gives_mk.2 (.ofPure fun _ _ => rfl)

theorem gives_propertyRead (h : Gives W locals n top o) (name : String) :
    Gives W locals ⟨span, ty, .propertyRead n name⟩ top (o >>= fun v => W.reads v name) :=
  gives_mk.2 (Turns.bind h fun v _ => turns_readTop v name)

theorem turns_arguments {args : List Node} {result : Node → Attempt Access Value}
    (h : ∀ a ∈ args, Gives W locals a [] (result a)) (below : List Value) :
    Turns (runAll (args.map (exec W))) locals below (args.mapM result)
      fun vs => vs.reverse ++ below := by
  induction args generalizing below with
  | nil => exact .ofPure fun _ _ => rfl
  | cons a rest ih =>
    rw [List.mapM_cons]
    have first := (h a (List.mem_cons_self ..)).frame below
    refine first.bind fun v _ => ?_
    rw [bind_pure_comp]
    refine Turns.map_iff.2 ?_
    have others := ih (fun b hb => h b (List.mem_cons_of_mem _ hb)) (v :: below)
    simp only [List.reverse_cons, List.append_assoc]
    exact others

theorem execKind_methodCall (owner : Ty) (name : String) (args : List Node) :
    execKind W ty ((Kind.methodCall n owner name args).map fun c => (c, exec W c)) = fun m =>
      exec W n m >>= fun m => runAll (args.map (exec W)) m >>= callTop W name args.length := by
  funext m
  simp only [Kind.map, execKind, List.map_map, List.length_map, bind_assoc]
  rfl

theorem gives_methodCall {owner : Ty} {name : String} {args : List Node}
    {result : Node → Attempt Access Value} (h : Gives W locals n top o)
    (hargs : ∀ a ∈ args, Gives W locals a [] (result a)) :
    Gives W locals ⟨span, ty, .methodCall n owner name args⟩ top
      (o >>= fun v => args.mapM result >>= fun vs => W.calls v name vs) := by
  rw [gives_mk, execKind_methodCall]
  refine Turns.bind h fun v _ => ?_
  refine (turns_arguments hargs [v]).bind fun vs hvs => ?_
  rw [← Attempt.length_of_mem_mapM hvs]
  exact turns_callTop v name vs

theorem gives_onTop {f : Value → Except Crash Value} {u : Value → Value} {kind : Kind Node}
    (run : ∀ m, execKind W ty (kind.map fun c => (c, exec W c)) m = exec W n m >>= onTop f)
    (h : Gives W locals n top o) (hf : ∀ v ∈ o, f v = .ok (u v)) :
    Gives W locals ⟨span, ty, kind⟩ top (u <$> o) := by
  refine gives_mk.2 ?_
  rw [funext run, ← bind_pure_comp]
  exact Turns.bind h fun v hv => turns_onTop (hf v hv)

theorem gives_box (h : Gives W locals n top o) :
    Gives W locals ⟨span, ty, .convert .box n⟩ top o := by
  rw [← id_map o]
  exact gives_onTop (fun _ => rfl) h fun _ _ => rfl

theorem gives_unbox (h : Gives W locals n top o) (hv : ∀ v ∈ o, v.isNull = false) :
    Gives W locals ⟨span, ty, .convert .unbox n⟩ top o := by
  rw [← id_map o]
  refine gives_onTop (fun _ => rfl) h fun v hmem => ?_
  show (if v.isNull then _ else _) = _
  rw [hv v hmem]
  rfl

theorem gives_isNull (h : Gives W locals n top o) :
    Gives W locals ⟨span, ty, .isNull n⟩ top ((fun v => .ofBool v.isNull) <$> o) :=
  gives_onTop (fun _ => rfl) h fun _ _ => rfl

theorem exec_sequence (items : List Node) :
    exec W ⟨span, ty, .sequence items⟩ = runAll (items.map (exec W)) := by
  have children : (items.map fun c => (c, exec W c)).map (·.2) = items.map (exec W) := by
    rw [List.map_map]
    rfl
  rw [exec_mk, ← children]
  rfl

/-- What comes behind runs on the value that is left. -/
theorem gives_sequence {body : Node} {k : Value → Attempt Access Value}
    (h : Gives W locals n top o) (hbody : ∀ v ∈ o, Gives W locals body [v] (k v)) :
    Gives W locals ⟨span, ty, .sequence [n, body]⟩ top (o >>= k) := by
  unfold Gives
  rw [exec_sequence]
  exact turns_runAll_cons h fun v hv => turns_runAll_one (hbody v hv)

theorem gives_letIn {x : String} {body : Node} {k : Value → Attempt Access Value}
    (h : Gives W locals n top o) (hbody : ∀ v ∈ o, Gives W ((x, v) :: locals) body [] (k v)) :
    Gives W locals ⟨span, ty, .letIn x n body⟩ top (o >>= k) :=
  gives_mk.2 (Turns.bind h fun v hv => turns_bindTop (hbody v hv))

/-- The node leaves a lazy sequence, of the attempt's elements, in the place of `top`. -/
def Streams (W : World) (locals : List (String × Value)) (n : Node) (top : List Value)
    (o : Attempt Access (List Value)) : Prop :=
  Turns (exec W n) locals top o fun items => [.seq items]

theorem streams_iff {os : Attempt Access (List Value)} :
    Gives W locals n top (.seq <$> os) ↔ Streams W locals n top os :=
  Turns.map_iff

theorem sequenced_eq {v : Value} (h : v.isNull = true ∨ v.items?.isSome) :
    sequenced v = .ok (.seq v.elements) := by
  unfold sequenced Value.elements
  cases v with
  | lit l => cases l <;> first | rfl | (rcases h with h | h <;> cases h)
  | object | type => rcases h with h | h <;> cases h
  | list | seq => rfl

theorem streams_toSequence (h : Gives W locals n top o)
    (hv : ∀ v ∈ o, v.isNull = true ∨ v.items?.isSome) :
    Streams W locals ⟨span, ty, .toSequence n⟩ top (Value.elements <$> o) := by
  have gives : Gives W locals ⟨span, ty, .toSequence n⟩ top ((fun v => .seq v.elements) <$> o) :=
    gives_onTop (fun _ => rfl) h fun v hmem => sequenced_eq (hv v hmem)
  exact Turns.map_iff.2 (Turns.map_iff.1 gives)

variable {os : Attempt Access (List Value)}

theorem gives_collect (h : Streams W locals n top os) (r : Reduction) :
    Gives W locals ⟨span, ty, .collect n r⟩ top (.collected r <$> os) := by
  refine gives_mk.2 ?_
  rw [← bind_pure_comp]
  exact Turns.bind h fun items _ => turns_collectTop r items

/-- A stage over a sequence, by what its body makes of each element and what that adds. -/
theorem streams_pipe {op : StageKind} {x : String} {body : Node}
    {result : Value → Attempt Access Value} {added : Value → Value → List Value}
    (h : Streams W locals n top os)
    (hbody : ∀ items ∈ os, ∀ i ∈ items, Gives W ((x, i) :: locals) body [] (result i))
    (hadded : ∀ items ∈ os, ∀ i ∈ items, ∀ u ∈ result i, staged op i u = .ok (added i u)) :
    Streams W locals ⟨span, ty, .pipe op n x body⟩ top
      (os >>= fun items => List.flatten <$> items.mapM fun i => added i <$> result i) := by
  unfold Streams
  rw [exec_mk]
  exact Turns.bind h fun items hi => turns_pipeTop (hbody items hi) (hadded items hi)

end

end NavScript
