import BytecodeMachine.Proofs.Machine.FileCalls

/-! Exceptions that are made and raised. A step makes at most one exception, which has no place yet,
or it meets a failure and raises one; an exception that has been raised stays as it is from then on. -/
namespace BytecodeMachine

/-- The exceptions there are, by their numbers. -/
def World.exceptions (w : World) : Array Exception := w.store.exceptions

theorem World.exceptions_of_records {w w' : World} (same : w'.records = w.records) :
    w'.exceptions = w.exceptions := congrArg Prod.fst same

/-- An exception that was made and not raised. -/
structure Exception.Unplaced (e : Exception) : Prop where
  file : e.file = []
  line : e.line = 0
  col : e.col = 0
  trace : e.trace = []
  positioned : e.positioned = false

/-- A world that has the exceptions of another and perhaps one more, which was not raised. -/
def World.MayMake (w w' : World) : Prop :=
  w'.exceptions = w.exceptions ∨
    ∃ e : Exception, e.Unplaced ∧ w'.exceptions = w.exceptions.push e

theorem World.mayMake_makeException (w : World) (kind message : Text) (payload : Value) :
    w.MayMake (w.makeException kind message payload).2 :=
  .inr ⟨_, ⟨rfl, rfl, rfl, rfl, rfl⟩, rfl⟩

/-- Files have nothing to do with exceptions. -/
theorem FileCall.exceptions_reply (bufferSize : Nat) (w : World) (call : FileCall) :
    (call.reply bufferSize w).2.exceptions = w.exceptions := by
  cases call with
  | «open» path mode =>
    change (w.openFile bufferSize path mode).2.exceptions = _
    unfold World.openFile
    split
    · rfl
    · split <;> rfl
  | close id =>
    change (w.fileMethod .fileClose id []).2.exceptions = _
    have hclose : (w.closeFile id).1.exceptions = w.exceptions := by
      rw [World.closeFile_fst]
      dsimp only
      split <;> rfl
    unfold World.fileMethod
    dsimp only
    split
    · next heq =>
      rw [heq] at hclose
      exact hclose
    · next heq =>
      rw [heq] at hclose
      exact hclose
  | write id t =>
    change (w.writeText id t).2.exceptions = _
    unfold World.writeText
    dsimp only
    split
    · rfl
    · rw [World.afterWrite_snd]
      rfl
  | flush id =>
    change (w.flushFile id).2.exceptions = _
    unfold World.flushFile
    dsimp only
    split
    · rfl
    · rw [World.afterWrite_snd]
      rfl
  | readLine id =>
    change (w.readLine id).2.exceptions = _
    unfold World.readLine
    dsimp only
    split
    · rfl
    · split
      · rfl
      · split <;> rfl
  | readAll id =>
    change (w.readAll id).2.exceptions = _
    unfold World.readAll
    dsimp only
    split
    · rfl
    · split <;> rfl

/-- Where native code answers with an error, it has made no exception. -/
def Machine.Native.MayMake (w : World) : Native → Prop
  | .answered (.error _) n => n.world.exceptions = w.exceptions
  | .answered (.ok _) n => w.MayMake n.world
  | .loops _ n => w.MayMake n.world

def Effect.MayMake (w : World) : Effect → Prop
  | .failed _ n => n.world.exceptions = w.exceptions
  | .next n => w.MayMake n.world
  | .returned _ n => w.MayMake n.world

theorem Effect.MayMake.of_same {w : World} {e : Effect}
    (same : e.machine.world.exceptions = w.exceptions) : e.MayMake w := by
  cases e with
  | failed f n => exact same
  | next n => exact .inl same
  | returned v n => exact .inl same

theorem Effect.MayMake.congr {w w' : World} {e : Effect} (h : e.MayMake w)
    (same : w.exceptions = w'.exceptions) : e.MayMake w' := by
  cases e with
  | failed f n => exact h.trans same
  | next n =>
    unfold MayMake World.MayMake at h ⊢
    rwa [← same]
  | returned v n =>
    unfold MayMake World.MayMake at h ⊢
    rwa [← same]

namespace Machine

variable {s : Setup} {m m' : Machine} {f : Failure}

theorem Native.MayMake.of_same {w : World} {n : Native}
    (same : n.machine.world.exceptions = w.exceptions) : n.MayMake w := by
  match n with
  | .answered (.ok v) m => exact .inl same
  | .answered (.error f) m => exact same
  | .loops l m => exact .inl same

theorem Native.MayMake.effect {w : World} {n : Native} (h : n.MayMake w) : n.effect.MayMake w := by
  match n with
  | .answered (.ok v) m => exact h
  | .answered (.error f) m => exact h
  | .loops l m => exact h

/-! What is made. -/

theorem callNative_mayMake (m : Machine) (nested : Bool) (callee : Value) (args : List Value) :
    (callNative s m nested callee args).MayMake m.world := by
  cases hcall : FileCall.of? m.world callee args with
  | some call =>
    rw [callNative_of_fileCall hcall nested]
    exact .of_same (call.exceptions_reply s.bufferSize m.world)
  | none =>
    obtain ⟨name, kind, message, payload, hmade⟩ | hsame := callNative_of_none hcall nested
    · rw [hmade]
      exact m.world.mayMake_makeException kind message payload
    · exact .of_same (World.exceptions_of_records hsame)

theorem carryOut_mayMake (m : Machine) (callee : Value) (args : List Value) :
    (carryOut s m callee args).MayMake m.world := by
  unfold carryOut
  split
  · exact .of_same rfl
  · exact (callNative_mayMake m false callee args).effect

theorem step_mayMake {ins : Instruction} (control : m.control = .fetch)
    (has : s.program.instruction? m.ip = some ins) (go : m.tick.stopBefore? = none) :
    ((m.begun s ins).step s ins).MayMake m.world := by
  have hbegun := World.exceptions_of_records (m.records_begun (s := s) ins)
  obtain ⟨c, -, hby, hstep⟩ | ⟨-, hstep⟩ := step_carriesOut control has go
  · rw [hstep]
    exact (carryOut_mayMake c.machine c.callee c.args).congr
      ((World.exceptions_of_records hby.records).trans hbegun)
  · exact .of_same ((World.exceptions_of_records hstep.records).trans hbegun)

/-! What a step fails with. -/

/-- The failure that the next step of a machine meets, and the machine that meets it: an instruction
or a native function fails, or a native loop cannot call its callee. -/
inductive Meets (s : Setup) (m : Machine) : Failure → Machine → Prop
  | fails {f : Failure} {m' : Machine} (h : m.Fails s f m') : Meets s m f m'
  | refused {l l' : Loop} {loops : List Loop} {e : Value} {rest args : List Value} {c : ErrorCause}
      (control : m.control = .iterate) (inner : m.loops = l :: loops) (next : l.rest = e :: rest)
      (taken : l.take e rest = (l', args))
      (refused : callbackRefusal? s l'.callee args = some c) :
      Meets s m (.of c) { m with loops := { l' with boundary := m.frames.length + 1 } :: loops }
  | deep {l l' : Loop} {loops : List Loop} {e : Value} {rest args : List Value} {c : ErrorCause}
      {g : Closure} {self : Option Value}
      (control : m.control = .iterate) (inner : m.loops = l :: loops) (next : l.rest = e :: rest)
      (taken : l.take e rest = (l', args)) (accepted : callbackRefusal? s l'.callee args = none)
      (target : Target.of l'.callee args = .function g self) (deep : m.tooDeep? s = some c) :
      Meets s m (.of c) { m with loops := { l' with boundary := m.frames.length + 1 } :: loops }

/-- A step that meets a failure carries it outwards, from the instructions inside the innermost loop
or from the loop itself. -/
theorem Meets.advance_eq (h : m.Meets s f m') :
    m.advance s = fail s (m.control = .fetch) f m' m'.loops := by
  have hfetch (control : m.control = .fetch) : decide (m.control = .fetch) = true :=
    decide_eq_true control
  have hiterate (control : m.control = .iterate) : decide (m.control = .fetch) = false := by
    rw [control]
    rfl
  cases h with
  | fails h =>
    cases h with
    | outside control none past =>
      rw [hfetch control, advance_of_fetch control, fetch, none]
      dsimp only
      rw [past]
      rfl
    | stopped control has stop =>
      rw [hfetch control, advance_of_fetch control, fetch, has]
      dsimp only
      rw [stop]
    | instruction control has go failed =>
      rw [hfetch control, advance_of_fetch control, fetch_eq_settle has go, failed]
      rfl
    | callback control inner next taken accepted failed =>
      rw [hiterate control, advance_of_take control inner next taken, callBack, accepted]
      dsimp only
      split
      · next target =>
        -- A function of the program is entered, and native code has no part in it.
        unfold callNative at failed
        rw [target] at failed
        cases failed
      · rw [failed]
  | refused control inner next taken refused =>
    rw [hiterate control, advance_of_take control inner next taken, callBack, refused]
  | deep control inner next taken accepted target deep =>
    rw [hiterate control, advance_of_take control inner next taken, callBack, accepted, target]
    dsimp only
    split
    · next heq =>
      cases heq.symm.trans deep
      rfl
    · next heq => cases heq.symm.trans deep

/-- Nothing is made on the way to a failure. -/
theorem Meets.exceptions (h : m.Meets s f m') : m'.world.exceptions = m.world.exceptions := by
  cases h with
  | fails h =>
    cases h with
    | outside | stopped => rfl
    | instruction control has go failed =>
      have hmade := step_mayMake control has go
      rw [failed] at hmade
      exact hmade
    | callback control inner next taken accepted failed =>
      have hmade : Native.MayMake m.world (.answered (.error f) m') := by
        rw [← failed]
        exact callNative_mayMake _ true _ _
      exact hmade
  | refused | deep => rfl

/-- A step that meets no failure makes an exception or leaves them as they are. -/
theorem advance_mayMake (h : ∀ f m', ¬m.Meets s f m') :
    m.world.MayMake (m.advance s).machine.world := by
  cases control : m.control with
  | fetch =>
    rw [advance_of_fetch control]
    cases has : s.program.instruction? m.ip with
    | none =>
      rw [fetch, has]
      dsimp only
      split
      · rw [deliver_world]
        exact .inl rfl
      · next past => exact absurd (.fails (.outside control has (by simpa using past))) (h _ _)
    | some ins =>
      cases go : m.tick.stopBefore? with
      | some reason => exact absurd (.fails (.stopped control has go)) (h _ _)
      | none =>
        have hmade := step_mayMake control has go
        rw [fetch_eq_settle has go]
        cases heffect : (m.begun s ins).step s ins with
        | failed f n => exact absurd (.fails (.instruction control has go heffect)) (h _ _)
        | next n =>
          rw [heffect] at hmade
          exact hmade
        | returned v n =>
          rw [heffect] at hmade
          rw [settle, deliver_world]
          exact hmade
  | iterate =>
    cases inner : m.loops with
    | nil =>
      rw [advance_of_iterate control, iterate, inner]
      exact .inl rfl
    | cons l loops =>
      cases next : l.rest with
      | nil =>
        have hresult := World.exceptions_of_records (l.records_result m.world)
        rw [advance_of_iterate control, iterate, inner]
        dsimp only
        rw [next, endLoop]
        dsimp only
        split
        · rw [deliver_world]
          exact .inl hresult
        · exact .inl hresult
      | cons e rest =>
        obtain ⟨l', args, taken⟩ : ∃ l' args, l.take e rest = (l', args) := ⟨_, _, rfl⟩
        rw [advance_of_take control inner next taken, callBack]
        cases accepted : callbackRefusal? s l'.callee args with
        | some c => exact absurd (.refused control inner next taken accepted) (h _ _)
        | none =>
          dsimp only
          split
          · next target =>
            split
            · next deep =>
              exact absurd (.deep control inner next taken accepted target deep) (h _ _)
            · exact .inl rfl
          · split
            · next v n heq =>
              have hmade : Native.MayMake m.world (.answered (.ok v) n) := by
                rw [← heq]
                exact callNative_mayMake _ true _ _
              rw [deliver_world]
              exact hmade
            · next heq =>
              exact absurd (.fails (.callback control inner next taken accepted heq)) (h _ _)
            · next x n heq =>
              have hmade : Native.MayMake m.world (.loops x n) := by
                rw [← heq]
                exact callNative_mayMake _ true _ _
              exact hmade

end Machine

/-! What stays. -/

/-- A world that has kept the exceptions that had been raised, with their places and traces. -/
def World.Retains (w w' : World) : Prop :=
  ∀ (id : Nat) (e : Exception), w.exceptions[id]? = some e → e.positioned = true →
    w'.exceptions[id]? = some e

namespace World.Retains

variable {w w' w'' : World}

theorem of_same (same : w'.exceptions = w.exceptions) : w.Retains w' :=
  fun id _ he _ => (congrArg (·[id]?) same).trans he

theorem trans (h : w.Retains w') (h' : w'.Retains w'') : w.Retains w'' :=
  fun id e he hp => h' id e (h id e he hp) hp

theorem of_mayMake (h : w.MayMake w') : w.Retains w' := by
  obtain same | ⟨new, -, hpush⟩ := h
  · exact of_same same
  · intro id e he _
    obtain ⟨hlt, -⟩ := Array.getElem?_eq_some_iff.mp he
    rw [hpush, Array.getElem?_push, if_neg (Nat.ne_of_lt hlt)]
    exact he

end World.Retains

namespace Machine

variable {s : Setup} {m m' q : Machine} {f : Failure}

/-- An exception that was raised before is not stamped again. -/
theorem stamp_of_positioned {id : Nat} {e : Exception} (he : m.world.exceptions[id]? = some e)
    (positioned : e.positioned = true) : stamp s m id = m := by
  have hget : m.world.store.exception id = e := by
    unfold Store.exception
    rw [show m.world.store.exceptions[id]? = some e from he]
    rfl
  unfold stamp
  dsimp only
  rw [hget, if_pos positioned]

theorem stamp_retains (m : Machine) (id : Nat) : m.world.Retains (stamp s m id).world := by
  intro j e he hp
  by_cases hj : j = id
  · subst hj
    rw [stamp_of_positioned he hp]
    exact he
  · unfold stamp
    dsimp only
    split
    · exact he
    · change (m.world.store.exceptions.modify id _)[j]? = some e
      rw [Array.getElem?_modify, if_neg (Ne.symm hj)]
      exact he

theorem exceptionOf_mayMake {id : Nat} (he : m.exceptionOf f = some (id, q)) :
    m.world.MayMake q.world := by
  cases f with
  | raise c payload =>
    cases he
    exact .inr ⟨_, ⟨rfl, rfl, rfl, rfl, rfl⟩, rfl⟩
  | rethrow =>
    cases he
    exact .inl rfl
  | _ => cases he

theorem fail_retains (inside : Bool) (f : Failure) (m : Machine) (loops : List Loop) :
    m.world.Retains (fail s inside f m loops).machine.world :=
  fail_world (R := World.Retains) (fun _ => .of_same rfl) World.Retains.trans
    (fun he => (World.Retains.of_mayMake (exceptionOf_mayMake he)).trans (stamp_retains _ _))
    inside f m loops

/-- A step leaves the exceptions that were raised before as they are. -/
theorem advance_retains (m : Machine) : m.world.Retains (m.advance s).machine.world := by
  by_cases hmeets : ∃ f m', m.Meets s f m'
  · obtain ⟨f, m', hmeets⟩ := hmeets
    rw [hmeets.advance_eq]
    exact (World.Retains.of_same hmeets.exceptions).trans (fail_retains _ f m' m'.loops)
  · exact .of_mayMake (advance_mayMake fun f m' h => hmeets ⟨f, m', h⟩)

end Machine

/-- Whatever a run does, an exception that has been raised stays as it is. -/
theorem Setup.stateAfter_retains (s : Setup) (w : World) (o : RunOptions) {i j : Nat} (h : i ≤ j) :
    (s.stateAfter w o i).machine.world.Retains (s.stateAfter w o j).machine.world := by
  induction j, h using Nat.le_induction with
  | base => exact .of_same rfl
  | succ j _ ih =>
    refine ih.trans ?_
    rw [stateAfter_succ]
    cases s.stateAfter w o j with
    | running m => exact m.advance_retains
    | ended e m => exact .of_same rfl

end BytecodeMachine
