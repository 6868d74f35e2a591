import Emsd.Proof.Transitions

/-!
# What the called functions do to a machine

Frame lemmas for the functions that the actions call: which parts of the machine they
leave alone, and what becomes of the others.
-/

namespace Erop

open Ocp

variable {c : Ctx} {m : Machine}

/-! ## Timers -/

section

variable {n : TmrName} {t d : Int}

@[simp] theorem tmrCreate_invoke : ((tmrCreate c m n t d).1).invoke = m.invoke := rfl

@[simp] theorem tmrCreate_refs : ((tmrCreate c m n t d).1).refs = m.refs := rfl

@[simp] theorem tmrCreate_out : ((tmrCreate c m n t d).1).out = m.out := rfl

@[simp] theorem tmrCreate_tmrQu : (tmrCreate c m n t d).1.tmrQu =
    if c.env.tmrCreate then m.tmrQu ++ [⟨n, t, d⟩] else m.tmrQu := rfl

@[simp] theorem tmrCreate_snd : (tmrCreate c m n t d).2 = .ofBool c.env.tmrCreate := rfl

@[simp] theorem tmrCancel_invoke : (tmrCancel m n).invoke = m.invoke := rfl

@[simp] theorem tmrCancel_refs : (tmrCancel m n).refs = m.refs := rfl

@[simp] theorem tmrCancel_out : (tmrCancel m n).out = m.out := rfl

@[simp] theorem tmrCancel_views : (tmrCancel m n).views = m.views := rfl

@[simp] theorem tmrCancel_bufs : (tmrCancel m n).bufs = m.bufs := rfl

@[simp] theorem tmrCancel_all_tmrQu : (tmrCancel m .allTimer).tmrQu = [] := rfl

theorem tmrCancel_tmrQu (hn : n ≠ .allTimer) :
    (tmrCancel m n).tmrQu = m.tmrQu.filter (·.name ≠ n) := by
  simp [tmrCancel, hn]

end

/-! ## Data units -/

section

variable {s : List Octets} {data : Option Octets}

@[simp] theorem pduRetrieve_invoke : ((pduRetrieve m s).1).invoke = m.invoke := by cases s <;> rfl

@[simp] theorem pduRetrieve_tmrQu : ((pduRetrieve m s).1).tmrQu = m.tmrQu := by cases s <;> rfl

@[simp] theorem pduRetrieve_refs : ((pduRetrieve m s).1).refs = m.refs := by cases s <;> rfl

@[simp] theorem pduRetrieve_out : ((pduRetrieve m s).1).out = m.out := by cases s <;> rfl

/-- A kept PDU can be linked: there is one, and a free view. -/
def canRetrieve (m : Machine) (s : List Octets) : Bool := s ≠ [] && 0 < m.views

theorem pduRetrieve_some (h : canRetrieve m s = true) : (pduRetrieve m s).2 = some (s.headD []) := by
  cases s with
  | nil => simp [canRetrieve] at h
  | cons du ds =>
    have hv : 0 < m.views := by simpa [canRetrieve] using h
    exact if_pos hv

theorem pduRetrieve_none (h : canRetrieve m s = false) : (pduRetrieve m s).2 = none := by
  cases s with
  | nil => rfl
  | cons du ds =>
    have hv : ¬0 < m.views := by simpa [canRetrieve] using h
    exact if_neg hv

theorem pduRetrieve_eq_some {du : Octets} :
    (pduRetrieve m s).2 = some du ↔ 0 < m.views ∧ s.head? = some du := by
  cases s <;> simp [pduRetrieve, duLink]

@[simp] theorem duFor_invoke : ((duFor m data).1).invoke = m.invoke := by cases data <;> rfl

@[simp] theorem duFor_tmrQu : ((duFor m data).1).tmrQu = m.tmrQu := by cases data <;> rfl

@[simp] theorem duFor_refs : ((duFor m data).1).refs = m.refs := by cases data <;> rfl

@[simp] theorem duFor_out : ((duFor m data).1).out = m.out := by cases data <;> rfl

end

section

variable {sel : SapSel} {r op v : Int} {enc : EncodingType} {data : Option Octets}

@[simp] theorem invokePdu_invoke : ((invokePdu m sel r op enc data).1).invoke = m.invoke := duFor_invoke

@[simp] theorem invokePdu_tmrQu : ((invokePdu m sel r op enc data).1).tmrQu = m.tmrQu := duFor_tmrQu

@[simp] theorem invokePdu_refs : ((invokePdu m sel r op enc data).1).refs = m.refs := duFor_refs

@[simp] theorem invokePdu_out : ((invokePdu m sel r op enc data).1).out = m.out := duFor_out

@[simp] theorem resultPdu_invoke : ((resultPdu m r enc data).1).invoke = m.invoke := duFor_invoke

@[simp] theorem resultPdu_tmrQu : ((resultPdu m r enc data).1).tmrQu = m.tmrQu := duFor_tmrQu

@[simp] theorem resultPdu_refs : ((resultPdu m r enc data).1).refs = m.refs := duFor_refs

@[simp] theorem resultPdu_out : ((resultPdu m r enc data).1).out = m.out := duFor_out

@[simp] theorem errorPdu_invoke : ((errorPdu m r enc v data).1).invoke = m.invoke := duFor_invoke

@[simp] theorem errorPdu_tmrQu : ((errorPdu m r enc v data).1).tmrQu = m.tmrQu := duFor_tmrQu

@[simp] theorem errorPdu_refs : ((errorPdu m r enc v data).1).refs = m.refs := duFor_refs

@[simp] theorem errorPdu_out : ((errorPdu m r enc v data).1).out = m.out := duFor_out

@[simp] theorem ackPdu_invoke : ((ackPdu m r).1).invoke = m.invoke := rfl

@[simp] theorem ackPdu_tmrQu : ((ackPdu m r).1).tmrQu = m.tmrQu := rfl

@[simp] theorem ackPdu_refs : ((ackPdu m r).1).refs = m.refs := rfl

@[simp] theorem ackPdu_out : ((ackPdu m r).1).out = m.out := rfl

@[simp] theorem ackPdu_snd : (ackPdu m r).2 =
    if duAllocOk m.views m.bufs then some [3, put1 r] else none := rfl

end

/-! ## Sending and indicating -/

@[simp] theorem udpDataReq_invoke {du : Octets} : ((udpDataReq c m du).1).invoke = m.invoke := rfl

@[simp] theorem udpDataReq_tmrQu {du : Octets} : ((udpDataReq c m du).1).tmrQu = m.tmrQu := rfl

@[simp] theorem udpDataReq_refs {du : Octets} : ((udpDataReq c m du).1).refs = m.refs := rfl

@[simp] theorem udpDataReq_out {du : Octets} : (udpDataReq c m du).1.out = m.out ++
    [.udp (some c.self) m.invoke.remTsapSel m.invoke.remNsapAddr du c.env.udpDataReq] := rfl

@[simp] theorem udpDataReq_snd {du : Octets} :
    (udpDataReq c m du).2 = .ofBool c.env.udpDataReq := rfl

@[simp] theorem actSendFailurePdu_invoke {r : Int} :
    ((actSendFailurePdu c m r).1).invoke = m.invoke := rfl

@[simp] theorem actSendFailurePdu_tmrQu {r : Int} : ((actSendFailurePdu c m r).1).tmrQu = m.tmrQu := rfl

@[simp] theorem actSendFailurePdu_refs {r : Int} : ((actSendFailurePdu c m r).1).refs = m.refs := rfl

@[simp] theorem actSendFailurePdu_out {r : Int} : (actSendFailurePdu c m r).1.out = m.out ++
    if duAllocOk m.views m.bufs then
      [.udp (some c.self) m.invoke.remTsapSel m.invoke.remNsapAddr
        (failureOctets m.invoke.invokeRefNu r) c.env.udpDataReq]
    else [] := by
  unfold actSendFailurePdu sendFailurePdu
  split <;> rfl

@[simp] theorem indicate_invoke {t : Task} : ((indicate c m t).1).invoke = m.invoke := rfl

@[simp] theorem indicate_tmrQu {t : Task} : ((indicate c m t).1).tmrQu = m.tmrQu := rfl

@[simp] theorem indicate_refs {t : Task} : ((indicate c m t).1).refs = m.refs := rfl

@[simp] theorem indicate_views {t : Task} : ((indicate c m t).1).views = m.views := rfl

@[simp] theorem indicate_bufs {t : Task} : ((indicate c m t).1).bufs = m.bufs := rfl

@[simp] theorem indicate_out {t : Task} :
    (indicate c m t).1.out = m.out ++ if c.env.memGet then [.sch t] else [] := by
  unfold indicate
  cases c.env.memGet <;> simp

@[simp] theorem indicate_snd {t : Task} : (indicate c m t).2 = .ofBool c.env.memGet := rfl

@[simp] theorem schSubmit_invoke {t : Task} : (schSubmit m t).invoke = m.invoke := rfl

@[simp] theorem schSubmit_tmrQu {t : Task} : (schSubmit m t).tmrQu = m.tmrQu := rfl

@[simp] theorem schSubmit_refs {t : Task} : (schSubmit m t).refs = m.refs := rfl

@[simp] theorem schSubmit_out {t : Task} : (schSubmit m t).out = m.out ++ [.sch t] := rfl

end Erop
