import Enc28j60.Interaction.Parties
import Enc28j60.Traffic

namespace Enc28j60.Interleaving

open Interaction RegisterMap SpiSlave Port LowLayer Interface Access Banking DataSheet Transfers
open Quiet Boot Operation Procedures CircularMemory Enc28j60.Ring Reception Delivery Transmission Integrity
open Sending Traffic

variable {si : Silicon} {d : Enc28j60T} {s : Bus Chip} {gone all : List Frame} {p : Word} {k : Call}
  {l t : List Call} {tot : Prop}

section Parties

/-- The chip while nothing arrives: on its own it only ends transmissions. -/
def undisturbed (si : Silicon) : Machine Io Io.Resp (Bus Chip) Unit :=
  Port.machine (chip si) fun _ ↦ Event.txDone.act si

/-- The calls made one after the other, with what they return. -/
def performAll : List Call → Drv (List (Option (Word × (ℕ → Byte))))
  | [] => pure []
  | k :: l => do
    let r ← k.run
    let rs ← performAll l
    pure (r :: rs)

/-- Every call keeps to the transmit buffer. -/
def Fitting (p : Word) : List Call → Prop
  | [] => True
  | k :: l => Fits p k ∧ Fitting (advance p k) l

/-- Receiving works on the frames pending, and on what the calls have returned. -/
def receive (x : List Frame × List (Word × (ℕ → Byte))) : Call → List Frame × List (Word × (ℕ → Byte))
  | .receivePacket buf maxlen =>
    match x.1 with
    | [] => ([], x.2 ++ [(0, buf)])
    | f :: rs => (rs, x.2 ++ [delivery f buf maxlen])
  | _ => x

/-- Sending works on the driver's pointer and on the transmit side. -/
def transmit (si : Silicon) (x : Word × Side) (k : Call) : Word × Side :=
  (advance x.1 k, transmitted si x.1 x.2 k)

/-- The two parties and what each of them has made. -/
abbrev Parties : Type := (List Frame × List (Word × (ℕ → Byte))) × Word × Side

abbrev step (si : Silicon) : Parties → Call → Parties := both receives receive (transmit si)

/-- The chip and the driver's record are as the parties have left them. -/
structure Joint (all : List Frame) (x : Parties) (d : Enc28j60T) (s : Bus Chip) : Prop where
  ptr : d.txBuffPtr = x.2.1
  posted : ∃ gone, all = gone ++ x.1.1 ∧ Posted 0 (· = all) gone x.2.2 d s

variable {x : Parties}

theorem fitting_filter : Fitting p l ↔ Fitting p (l.filter fun k ↦ !receives k) := by
  induction l generalizing p with
  | nil => exact Iff.rfl
  | cons k l ih =>
    cases hk : receives k with
    | true =>
      cases k with
      | receivePacket buf maxlen =>
        rw [List.filter_cons_of_neg (by simp [hk]), ← ih]
        exact and_iff_right trivial
      | _ => cases hk
    | false =>
      rw [List.filter_cons_of_pos (by simp [hk])]
      exact and_congr_right fun _ ↦ ih

theorem acts_undisturbed : Acts si fun _ : Unit ↦ Event.txDone.act si := fun _ ↦ ⟨.txDone, rfl⟩

/-- The end of a transmission is no arrival. -/
theorem admits_undisturbed {A : List Frame → Prop} (c : Chip) :
    Admits si (fun _ : Unit ↦ Event.txDone.act si) 0 A := by
  intro f he
  obtain ⟨e, he⟩ := he
  have he : Event.txDone.act si = (Event.arrive f).act si := he
  let c₁ : Chip := c.setReg (ECON1.cell 0) 0x08
  have hecon1 : c₁.econ1 = 0x08 := by
    rw [Chip.econ1_setReg, if_pos rfl]
  have htx : c₁.txrts = true := by
    rw [Chip.txrts, hecon1]
    rfl
  have hdone : (Event.txDone.act si c₁).econ1 = 0x00 := by
    simp only [Event.act, htx, if_true, Chip.econ1_finishTx, hecon1]
    rfl
  have harrive : ((Event.arrive f).act si c₁).econ1 = 0x08 := by
    change (c₁.arrive f).regs (ECON1.cell 0) = 0x08
    rw [c₁.arrive_regs]
    exact hecon1
  rw [← he, hdone] at harrive
  exact absurd harrive (by decide)

theorem does_joint (h : Joint all x d s) (hfit : Fits x.2.1 k) :
    (undisturbed si).dwp (fun _ _ ↦ True) tot k.run (fun r d' s' ↦
      (step si x k).1.2 = x.1.2 ++ r.toList ∧ Joint all (step si x k) d' s') d s := by
  obtain ⟨hptr, gone, hall, hpost⟩ := h
  rw [← hptr] at hfit
  refine Machine.dwp_mono (does_step acts_undisturbed (admits_undisturbed s.chip) hpost hfit) ?_
  intro r d' s' h'
  obtain ⟨hptr', gone', hout, hpost'⟩ := h'
  rw [hptr] at hptr' hpost'
  cases k with
  | receivePacket buf maxlen =>
    obtain ⟨⟨rs, log⟩, p, t⟩ := x
    rcases hout with ⟨hnone, rfl, rfl⟩ | ⟨f, rfl, rfl⟩
    · have hrs : rs = [] := by
        rw [← hnone] at hall
        exact List.append_right_eq_self.mp hall.symm
      subst hrs
      exact ⟨rfl, hptr', gone', hall, hpost'⟩
    · obtain ⟨rs', hring⟩ := hpost'.docked.ring
      have hrs : rs = f :: rs' := by
        have hacc := hring.accepted
        rw [hpost'.accepted, hall, List.append_assoc] at hacc
        exact List.append_cancel_left hacc
      subst hrs
      refine ⟨rfl, hptr', gone ++ [f], ?_, hpost'⟩
      rw [hall, List.append_assoc]
      rfl
  | _ =>
    obtain ⟨rfl, rfl⟩ := hout
    refine ⟨(List.append_nil _).symm, hptr', gone', hall, hpost'⟩

theorem does_performAll (h : Joint all x d s) (hfit : Fitting x.2.1 l) :
    (undisturbed si).dwp (fun _ _ ↦ True) tot (performAll l) (fun rs d' s' ↦
      (l.foldl (step si) x).1.2 = x.1.2 ++ rs.reduceOption ∧ Joint all (l.foldl (step si) x) d' s') d s := by
  induction l generalizing x d s with
  | nil => exact ⟨(List.append_nil _).symm, h⟩
  | cons k l ih =>
    refine Machine.dwp_bind.mpr (Machine.dwp_mono (does_joint h hfit.1) ?_)
    intro r d₁ s₁ h₁
    obtain ⟨hlog, hjoint⟩ := h₁
    have hptr : (step si x k).2.1 = advance x.2.1 k := by
      cases k <;> rfl
    refine Machine.dwp_bind.mpr (Machine.dwp_mono (ih hjoint (hptr ▸ hfit.2)) ?_)
    intro rs d' s' h'
    obtain ⟨hlogs, hjoint'⟩ := h'
    refine ⟨?_, hjoint'⟩
    rw [List.foldl_cons, hlogs, hlog, List.append_assoc]
    cases r <;> rfl

end Parties

section Agreement

variable {LL_TEST : Bool} {mac : MacAddrT} {h₀ : List (Call × Option (Word × (ℕ → Byte)))}

/-- Two interleavings of the same receptions and the same transmissions return the same bytes, send
the same frames and leave the two sides of the chip and of the driver alike. -/
theorem interleavings_agree (h : Trades si LL_TEST mac h₀ d s) (hfit : Fitting d.txBuffPtr l)
    (hr : l.filter receives = t.filter receives)
    (ht : (l.filter fun k ↦ !receives k) = t.filter fun k ↦ !receives k) (σ σ' : ℕ → List Unit) :
    ∃ rs rs' d₁ d₂ s₁ s₂, (undisturbed si).Returns σ ((performAll l).run d) s (rs, d₁) s₁ ∧
      (undisturbed si).Returns σ' ((performAll t).run d) s (rs', d₂) s₂ ∧
      rs.reduceOption = rs'.reduceOption ∧ s₁.chip.sent = s₂.chip.sent ∧
      d₁.nextRxPacketPtr = d₂.nextRxPacketPtr ∧ d₁.txBuffPtr = d₂.txBuffPtr ∧
      s₁.chip.erxrdpt = s₂.chip.erxrdpt ∧ s₁.chip.epktcnt = s₂.chip.epktcnt ∧
      s₁.chip.mem = s₂.chip.mem := by
  obtain ⟨gone, hpost⟩ := posted_trades h (sideOf s.chip)
  obtain ⟨rs₀, hring⟩ := hpost.docked.ring
  have hstart : Joint s.chip.accepted ((rs₀, []), d.txBuffPtr, sideOf s.chip) d s :=
    ⟨rfl, gone, hring.accepted, hpost.window, hpost.docked, rfl, hpost.econ1, hpost.ptr, fun _ ↦ ⟨rfl, rfl⟩⟩
  have hfit' : Fitting d.txBuffPtr t := by
    rw [fitting_filter, ← ht, ← fitting_filter]
    exact hfit
  have hcalls : (undisturbed si).dwp _ True (performAll l) _ d s := does_performAll hstart hfit
  have hcalls' : (undisturbed si).dwp _ True (performAll t) _ d s := does_performAll hstart hfit'
  obtain ⟨rs, d₁, s₁, hrun, hlog, hptr, gone₁, hall, hpost₁⟩ := Machine.dwp_total hcalls σ
  obtain ⟨rs', d₂, s₂, hrun', hlog', hptr', gone₂, hall', hpost₂⟩ := Machine.dwp_total hcalls' σ'
  rw [← foldl_both_congr hr ht] at hlog' hptr' hall' hpost₂
  generalize l.foldl (step si) ((rs₀, []), d.txBuffPtr, sideOf s.chip) = y at *
  have hgone : gone₁ = gone₂ := List.append_cancel_right (hall.symm.trans hall')
  subst hgone
  obtain ⟨rs₁, hring₁⟩ := hpost₁.docked.ring
  obtain ⟨rs₂, hring₂⟩ := hpost₂.docked.ring
  have hrs : rs₁ = rs₂ := by
    have hacc := hring₁.accepted.symm.trans (hpost₁.accepted.trans (hpost₂.accepted.symm.trans hring₂.accepted))
    exact List.append_cancel_left hacc
  subst hrs
  obtain ⟨hm₁, hs₁⟩ := hpost₁.side rfl
  obtain ⟨hm₂, hs₂⟩ := hpost₂.side rfl
  refine ⟨rs, rs', d₁, d₂, s₁, s₂, hrun, hrun', ?_, hs₁.trans hs₂.symm, ?_, hptr.trans hptr'.symm, ?_, ?_,
    hm₁.trans hm₂.symm⟩
  · rw [List.nil_append] at hlog hlog'
    exact hlog.symm.trans hlog'
  · rw [hpost₁.docked.nextRx, hpost₂.docked.nextRx]
  · rw [hring₁.erxrdpt, hring₂.erxrdpt]
  · exact BitVec.eq_of_toNat_eq (hring₁.epktcnt.trans hring₂.epktcnt.symm)

theorem interleavings_agree_initialized : ∃ (d d₁ d₂ : Enc28j60T) (s s₁ s₂ : Bus Chip)
    (rs rs' : List (Option (Word × (ℕ → Byte)))),
    (undisturbed specimen).Returns (fun _ ↦ []) ((performAll
      [.prepareToTx, .writeToTx (fun _ ↦ 0) 15, .receivePacket (fun _ ↦ 0) 1520, .readyToSend]).run d) s
      (rs, d₁) s₁ ∧
    (undisturbed specimen).Returns (fun _ ↦ []) ((performAll
      [.receivePacket (fun _ ↦ 0) 1520, .prepareToTx, .writeToTx (fun _ ↦ 0) 15, .readyToSend]).run d) s
      (rs', d₂) s₂ ∧
    s₁.chip.sent = s₂.chip.sent := by
  obtain ⟨d, s, hi⟩ := exists_initialized specimen true ⟨0x02, 0, 0, 0, 0, 0x01⟩
  obtain ⟨rs, rs', d₁, d₂, s₁, s₂, hrun, hrun', -, hsent, -⟩ := interleavings_agree (.start hi)
    (l := [.prepareToTx, .writeToTx (fun _ ↦ 0) 15, .receivePacket (fun _ ↦ 0) 1520, .readyToSend])
    (t := [.receivePacket (fun _ ↦ 0) 1520, .prepareToTx, .writeToTx (fun _ ↦ 0) 15, .readyToSend])
    ⟨trivial, (by decide : (0x1800 : ℕ) + 15 ≤ 0x1800 + 2041), trivial, trivial, trivial⟩ rfl rfl
    (fun _ ↦ []) fun _ ↦ []
  exact ⟨d, d₁, d₂, s, s₁, s₂, rs, rs', hrun, hrun', hsent⟩

end Agreement

end Enc28j60.Interleaving
