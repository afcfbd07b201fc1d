import TunnelControl.Proofs.Tunnel.Stages

namespace TunnelControl.Tunnel

open Netlink

/-- The operation passes the stages and leaves such a socket open, or it ends with the failure of
the first stage that fails. -/
inductive Follows {α : Type} (settings : Settings) (operation : Operation α)
    (socket : Option Socket) (host : Host) (course : List Stage)
    (opened : α → Option Socket → Prop) : Prop
  | passed {value : α} {next : Option Socket} {after : Host}
      (hrun : operation.run host = (.ok value, after)) (hopened : opened value next)
      (hcourse : PassesAll settings socket host course next after)
  | stopped {failure : Failure} {after : Host}
      (hrun : operation.run host = (.error failure, after))
      (hcourse : StopsIn settings socket host course failure after)

def Continues {α : Type} (result : α × Socket) (next : Option Socket) : Prop :=
  next = some result.2.cleared

variable {settings : Settings} {α β : Type} {socket : Option Socket} {host before : Host}
  {front course : List Stage} {opened : α → Option Socket → Prop}

namespace Follows

theorem pure (value : α) (hopened : opened value socket) :
    Follows settings (Pure.pure value) socket host [] opened :=
  .passed rfl hopened .nil

theorem passes_of_run {operation : Operation α} {value : α} {after : Host}
    (h : Follows settings operation socket host course opened)
    (hrun : operation.run host = (.ok value, after)) :
    ∃ next, opened value next ∧ PassesAll settings socket host course next after := by
  cases h with
  | passed hother hopened hcourse =>
      cases hrun.symm.trans hother
      exact ⟨_, hopened, hcourse⟩
  | stopped hother _ => cases hrun.symm.trans hother

theorem stops_of_run {operation : Operation α} {failure : Failure} {after : Host}
    (h : Follows settings operation socket host course opened)
    (hrun : operation.run host = (.error failure, after)) :
    StopsIn settings socket host course failure after := by
  cases h with
  | passed hother _ _ => cases hrun.symm.trans hother
  | stopped hother hcourse =>
      cases hrun.symm.trans hother
      exact hcourse

/-- The rest of an operation, once its first stages are passed. -/
theorem after {operation other : Operation α} {next : Option Socket} {back : List Stage}
    (h : Follows settings other next before back opened)
    (hfront : PassesAll settings socket host front next before)
    (hrun : operation.run host = other.run before) :
    Follows settings operation socket host (front ++ back) opened := by
  cases h with
  | passed hother hopened hcourse =>
      exact .passed (hrun.trans hother) hopened (hfront.append hcourse)
  | stopped hother hcourse => exact .stopped (hrun.trans hother) (.append_left hfront hcourse)

/-- What is done first may decide what the rest is; if it fails, the rest might have been any. -/
theorem exists_bind {ι : Type} {last : ι → β → Option Socket → Prop} {first : Operation α}
    {rest : α → Operation β} (hfirst : Follows settings first socket host front opened)
    (back : ι → List Stage) (other : ι)
    (hrest : ∀ value next middle, first.run host = (.ok value, middle) → opened value next →
      ∃ i, Follows settings (rest value) next middle (back i) (last i)) :
    ∃ i, Follows settings (first >>= rest) socket host (front ++ back i) (last i) := by
  cases hfirst with
  | stopped hrun hcourse =>
      exact ⟨other, .stopped (Exchange.run_bind_of_error hrun) (hcourse.append_right _)⟩
  | passed hrun hopened hcourse =>
      obtain ⟨i, hback⟩ := hrest _ _ _ hrun hopened
      exact ⟨i, hback.after hcourse (Exchange.run_bind_of_ok hrun)⟩

theorem bind {last : β → Option Socket → Prop} {first : Operation α} {rest : α → Operation β}
    (hfirst : Follows settings first socket host front opened) (back : List Stage)
    (hrest : ∀ value next middle, first.run host = (.ok value, middle) → opened value next →
      Follows settings (rest value) next middle back last) :
    Follows settings (first >>= rest) socket host (front ++ back) last := by
  have hbound : ∃ _ : Unit, Follows settings (first >>= rest) socket host (front ++ back) last :=
    hfirst.exists_bind (fun _ => back) ()
      fun value next middle hrun hopened => ⟨(), hrest value next middle hrun hopened⟩
  exact hbound.elim fun _ h => h

/-! On a socket. -/

variable {program : SocketOperation α} {current : Socket}

theorem map (h : Follows settings (program.run current) socket host course Continues)
    (f : α → β) :
    Follows settings ((program >>= fun value => Pure.pure (f value)).run current) socket host course
      Continues := by
  have hmapped : Follows settings
      (program.run current >>= fun result => Pure.pure (f result.1, result.2)) socket host
      (course ++ []) Continues :=
    h.bind [] fun result _ _ _ hnext => .pure (f result.1, result.2) hnext
  rw [List.append_nil] at hmapped
  exact hmapped

theorem run' (h : Follows settings (program.run current) socket host course Continues) :
    Follows settings (program.run' current) socket host course fun _ _ => True := by
  have hrun := MakesOn.run_run' program current host
  cases h with
  | passed hother _ hcourse =>
      rw [hother] at hrun
      exact .passed hrun trivial hcourse
  | stopped hother hcourse =>
      rw [hother] at hrun
      exact .stopped hrun hcourse

theorem of_lift {operation : Operation α} {value : α} {rest : α → SocketOperation β}
    (hrun : operation.run host = (.ok value, before))
    (hidle : PassesAll settings socket host [] socket before)
    (h : Follows settings ((rest value).run current) socket before course Continues) :
    Follows settings (((liftM operation : SocketOperation α) >>= rest).run current) socket host course
      Continues :=
  h.after hidle (MakesOn.run_lift_bind_of_ok hrun current)

end Follows

/-! Single stages. -/

theorem follows_openSocket (protocol : Protocol) :
    Follows settings (Host.openSocket protocol settings) socket host [.opening protocol]
      fun found next => Continues ((), found) next := by
  obtain ⟨outcome, errno, hrun, herror⟩ := Host.exists_run_openSocket protocol settings host
  cases outcome with
  | error failure =>
      obtain ⟨error, rfl⟩ := herror failure rfl
      exact .stopped hrun (.of_fails (.opening hrun))
  | ok found => exact .passed hrun rfl (.cons (.opening hrun) .nil)

theorem follows_indexOf (name : String) :
    Follows settings (Host.indexOf name) socket host [.indexing name] fun _ _ => True := by
  obtain ⟨outcome, hrun, herror⟩ := Host.exists_run_indexOf name host
  cases outcome with
  | error failure =>
      obtain rfl := herror failure rfl
      exact .stopped hrun (.of_fails (.indexing hrun))
  | ok index => exact .passed hrun trivial (.cons (.indexing hrun) .nil)

theorem follows_exchange (errand : Errand) {classify : Error → Failure} (current : Socket)
    (hclassify : ∀ error after, errand.exchange.run current.cleared = (.error error, after) →
      classify error = errand.failure error) :
    Follows settings ((SocketOperation.exchange classify errand.exchange).run current)
      (some current.cleared) host [.asking errand] Continues := by
  rcases hrun : errand.exchange.run current.cleared with ⟨error | result, after⟩
  · have hfails := MakesOn.run_exchange_of_error classify hrun host
    rw [hclassify error after hrun] at hfails
    exact .stopped hfails (.of_fails (.asking hrun))
  · exact .passed (MakesOn.run_exchange_of_ok classify hrun host) rfl (.cons (.asking hrun) .nil)

theorem noteExchange_resuming (host : Host) (first second : Socket) :
    host.noteExchange (second.resuming first) =
      (host.noteExchange first).noteExchange second := by
  simp only [Host.noteExchange, Socket.resuming, List.map_append, List.append_assoc]

/-- An exchange that goes on behind an errand is recorded like one exchange after another. -/
theorem follows_exchange_bind (errand : Errand) {classify : Error → Failure}
    {rest : errand.Result → Exchange α} {back : List Stage} (current : Socket)
    (hclassify : ∀ error, classify error = errand.failure error)
    (hignores : ∀ result, Socket.IgnoresRecord (rest result))
    (hrest : ∀ result next middle,
      Follows settings ((SocketOperation.exchange classify (rest result)).run next)
        (some next.cleared) middle back Continues) :
    Follows settings ((SocketOperation.exchange classify (errand.exchange >>= rest)).run current)
      (some current.cleared) host (.asking errand :: back) Continues := by
  rcases hfirst : errand.exchange.run current.cleared with ⟨error | result, next⟩
  · have hfails : Stage.Fails settings (.asking errand) (some current.cleared) host
        (errand.failure error) (host.noteExchange next) := .asking hfirst
    have hbound : (errand.exchange >>= rest).run current.cleared = (.error error, next) :=
      Exchange.run_bind_of_error hfirst
    have hrun := MakesOn.run_exchange_of_error classify hbound host
    rw [hclassify] at hrun
    exact .stopped hrun (StopsIn.append_right (.of_fails hfails) back)
  · have hpasses : PassesAll settings (some current.cleared) host [.asking errand]
        (some next.cleared) (host.noteExchange next) := .cons (.asking hfirst) .nil
    have hrun := hignores result next.cleared next
    rw [Socket.cleared_resuming, ← Exchange.run_bind_of_ok hfirst] at hrun
    have hlater := hrest result next (host.noteExchange next)
    rcases hothers : (rest result).run next.cleared with ⟨error | value, last⟩
    · have hstops := hlater.stops_of_run (MakesOn.run_exchange_of_error _ hothers _)
      rw [hothers] at hrun
      rw [← noteExchange_resuming] at hstops
      exact .stopped (MakesOn.run_exchange_of_error _ hrun host) (.append_left hpasses hstops)
    · obtain ⟨_, rfl, hstages⟩ := hlater.passes_of_run (MakesOn.run_exchange_of_ok _ hothers _)
      rw [hothers] at hrun
      rw [← noteExchange_resuming] at hstages
      exact .passed (MakesOn.run_exchange_of_ok _ hrun host) rfl (hpasses.append hstages)

end TunnelControl.Tunnel
