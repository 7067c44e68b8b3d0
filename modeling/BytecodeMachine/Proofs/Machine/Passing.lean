import BytecodeMachine.Machine.Unwind
import Mathlib.Tactic.Common

/-! How transfers pass handlers. A throw, a return or a leave looks at the handlers from the top down.
It passes those that have nothing left to run and stops at the first other one, or at one that is none
of its business. All that is said of transfers elsewhere follows from these two descriptions. -/
namespace BytecodeMachine

/-- There is no finally block, or it is running. -/
def Handler.Through (h : Handler) : Prop := h.hasFinally = true → h.isFinalizing = true

/-- A leave exits a region of the current frame that does not cover the target and that was entered at
or above the depth it goes to. -/
def Handler.Exited (h : Handler) (m : Machine) (target dest : Int) : Prop :=
  h.callDepth = m.frames.length ∧ dest ≤ (h.scopeDepth : Int) ∧ h.covers target = false

namespace Machine

variable {m : Machine} {exc boundary : Nat}

/-- How a throw comes out. The handlers `above` the one it stops at are passed. -/
inductive Throws (m : Machine) (exc boundary : Nat) (handlers : List Handler) : Thrown → Prop
  | caught (above : List Handler) {rest : List Handler} {h : Handler}
      (found : handlers = above ++ h :: rest)
      (passed : ∀ a ∈ above, boundary ≤ a.callDepth ∧ a.Through) (inside : boundary ≤ h.callDepth)
      (trying : h.phase = .trying) (has : h.hasCatch = true) :
      Throws m exc boundary handlers (.handled (m.enterCatch h rest exc))
  | entered (above : List Handler) {rest : List Handler} {h : Handler}
      (found : handlers = above ++ h :: rest)
      (passed : ∀ a ∈ above, boundary ≤ a.callDepth ∧ a.Through) (inside : boundary ≤ h.callDepth)
      (has : h.hasFinally = true) (fresh : h.isFinalizing = false) :
      Throws m exc boundary handlers (.handled (m.enterFinally h rest (.exception exc)))
  | escaped (above : List Handler) {rest : List Handler} (found : handlers = above ++ rest)
      (passed : ∀ a ∈ above, boundary ≤ a.callDepth ∧ a.Through)
      (outside : ∀ h ∈ rest.head?, h.callDepth < boundary) :
      Throws m exc boundary handlers
        (.escaped (popFrames (m.frames.length + 1 - max boundary 1) { m with handlers := rest }))

theorem Throws.cons {handlers : List Handler} {t : Thrown} {h : Handler}
    (ht : Throws m exc boundary handlers t) (inside : boundary ≤ h.callDepth) (through : h.Through) :
    Throws m exc boundary (h :: handlers) t := by
  cases ht with
  | caught above found passed hin trying has =>
    exact .caught (h :: above) (by rw [found, List.cons_append])
      (List.forall_mem_cons.mpr ⟨⟨inside, through⟩, passed⟩) hin trying has
  | entered above found passed hin has fresh =>
    exact .entered (h :: above) (by rw [found, List.cons_append])
      (List.forall_mem_cons.mpr ⟨⟨inside, through⟩, passed⟩) hin has fresh
  | escaped above found passed outside =>
    exact .escaped (h :: above) (by rw [found, List.cons_append])
      (List.forall_mem_cons.mpr ⟨⟨inside, through⟩, passed⟩) outside

theorem throwTo_throws (m : Machine) (exc boundary : Nat) (handlers : List Handler) :
    Throws m exc boundary handlers (m.throwTo exc boundary handlers) := by
  induction handlers with
  | nil => exact .escaped [] rfl (by simp) (by simp)
  | cons h rest ih =>
    rw [throwTo]
    split
    · next hb => exact .escaped [] (List.nil_append _).symm (by simp) (by simpa using hb)
    · next hb =>
      have hin : boundary ≤ h.callDepth := Nat.le_of_not_lt hb
      split
      · next hc =>
        rw [Bool.and_eq_true, decide_eq_true_eq] at hc
        exact .caught [] rfl (by simp) hin hc.1 hc.2
      · split
        · next hf =>
          rw [Bool.and_eq_true, Bool.not_eq_true'] at hf
          exact .entered [] rfl (by simp) hin hf.2 hf.1
        · next hf =>
          refine ih.cons hin fun has => ?_
          simpa [has] using hf

/-- How a return or a leave comes out: `exits` are the handlers of the regions that it exits, and
`pending` is what it puts off at one that has a finally block to run. -/
inductive Defers (m : Machine) (exits : Handler → Prop) (pending : Handler → Pending)
    (handlers : List Handler) : Machine ⊕ Machine → Prop
  | entered (above : List Handler) {rest : List Handler} {h : Handler}
      (found : handlers = above ++ h :: rest) (passed : ∀ a ∈ above, exits a ∧ a.Through)
      (here : exits h) (has : h.hasFinally = true) (fresh : h.isFinalizing = false) :
      Defers m exits pending handlers (.inl (m.enterFinally h rest (pending h)))
  | out (above : List Handler) {rest : List Handler} (found : handlers = above ++ rest)
      (passed : ∀ a ∈ above, exits a ∧ a.Through) (stays : ∀ h ∈ rest.head?, ¬ exits h) :
      Defers m exits pending handlers (.inr { m with handlers := rest })

theorem Defers.cons {exits : Handler → Prop} {pending : Handler → Pending}
    {handlers : List Handler} {r : Machine ⊕ Machine} {h : Handler}
    (hr : Defers m exits pending handlers r) (here : exits h) (through : h.Through) :
    Defers m exits pending (h :: handlers) r := by
  cases hr with
  | entered above found passed hin has fresh =>
    exact .entered (h :: above) (by rw [found, List.cons_append])
      (List.forall_mem_cons.mpr ⟨⟨here, through⟩, passed⟩) hin has fresh
  | out above found passed stays =>
    exact .out (h :: above) (by rw [found, List.cons_append])
      (List.forall_mem_cons.mpr ⟨⟨here, through⟩, passed⟩) stays

theorem returnThrough_defers (m : Machine) (v : Value) (handlers : List Handler) :
    Defers m (fun h => h.callDepth = m.frames.length) (fun _ => .giveBack v) handlers
      (m.returnThrough v handlers) := by
  induction handlers with
  | nil => exact .out [] rfl (by simp) (by simp)
  | cons h rest ih =>
    rw [returnThrough]
    split
    · next hd => exact .out [] (List.nil_append _).symm (by simp) (by simpa using hd)
    · next hd =>
      have hhere : h.callDepth = m.frames.length := not_not.mp hd
      split
      · next hf =>
        rw [Bool.and_eq_true, Bool.not_eq_true'] at hf
        exact .entered [] rfl (by simp) hhere hf.1 hf.2
      · next hf =>
        refine ih.cons hhere fun has => ?_
        simpa [has] using hf

theorem leaveThrough_defers (m : Machine) (target dest : Int) (handlers : List Handler) :
    Defers m (fun h => h.Exited m target dest)
      (fun h => .leave target ((h.scopeDepth : Int) - dest)) handlers
      (m.leaveThrough target dest handlers) := by
  induction handlers with
  | nil => exact .out [] rfl (by simp) (by simp)
  | cons h rest ih =>
    have hexited : (h.callDepth = m.frames.length && dest ≤ (h.scopeDepth : Int) &&
        !h.covers target) = true ↔ h.Exited m target dest := by
      simp [Handler.Exited, and_assoc]
    rw [leaveThrough]
    split
    · next hd =>
      have hhere := hexited.mp hd
      split
      · next hf =>
        rw [Bool.and_eq_true, Bool.not_eq_true'] at hf
        exact .entered [] rfl (by simp) hhere hf.1 hf.2
      · next hf =>
        refine ih.cons hhere fun has => ?_
        simpa [has] using hf
    · next hd =>
      refine .out [] (List.nil_append _).symm (by simp) fun d hmem => ?_
      rw [List.head?_cons, Option.mem_some_iff] at hmem
      subst hmem
      exact fun hex => hd (hexited.mpr hex)

end Machine

end BytecodeMachine
