import GeloLightrag.TwoParty.Linearizable

namespace TwoParty
open Foundation Keying Foundation.Linearization

section
variable {Kg Params Store Query Ctx : Type} [HkdfSha256] [HmacSha256] {around : Surroundings Kg Params Store Query Ctx}
  {service service' : Service Kg Params Store Query Ctx} {turns turns' : List (Turn Kg Params Store Query Ctx)}
  {now next : Table Store} {caller : Nat} {phase phase' : Phase Kg Params Query} {call : Call Kg Params Query} {reply : Reply Ctx}

theorem Linked.invoke (linked : Linked around service turns now) (free : service.calls caller = none) (call : Call Kg Params Query) :
    Linked around {service.stand caller (.invoked call) with history:=service.history ++ [.invoked caller call]} turns now := by
  have never := linked.progress.idle caller free
  have unplaced : ∀ e ∈ order turns, e.caller ≠ caller := fun e placed same => never e.call (same ▸ linked.log.started placed)
  refine ⟨linked.log.invoke never call,linked.shelves.frame _ _ _,?_,?_,?_⟩
  · refine linked.progress.move rfl rfl ?_ (fun e member => member) (fun e member _ => member) fun call' is => ?_
    · intro event member other apart
      rw [List.mem_singleton.mp member]
      refine ⟨fun call same => ?_,fun reply same => by cases same⟩
      injection same with one
      exact apart one.symm
    · cases is
      refine ⟨List.mem_append_right _ (List.mem_singleton_self _),fun reply member => ?_,fun member => ?_⟩
      · rcases List.mem_append.mp member with old | new
        · obtain ⟨e,placed,same,_⟩ := linked.log.answered caller reply old
          exact unplaced e placed same
        · cases List.mem_singleton.mp new
      · obtain ⟨e,placed,same⟩ := mem_callers.mp member
        exact unplaced e placed same
  · exact linked.draws.move rfl (Nat.le_refl _) (fun t u kg p d drew same => by cases same) (fun d member => .inl member) linked.draws.sound
  · exact linked.holding.move linked.progress rfl rfl (fun t arc found => .inl found) (fun turn member k keyed => ⟨turn,member,keyed,rfl⟩)
      fun t q n arc same => by cases same

section Ingest
variable {t : String} {u : Bytes} {kg : Kg} {p : Params} {text : String} {tenant : Tenant Store}

-- What the secret an ingest gets is in the order.
theorem Linked.secret (linked : Linked around service turns now) (t : String) :
    match now.tenants t with
    | some tenant => service.orCreateTeeSecret t = (tenant.teeUserXSk,false)
    | none => service.orCreateTeeSecret t = (service.drawn,true) ∧ service.drawn ∉ now.used := by
  rw [linked.shelves.table]
  unfold LightRagTwoPartyService.orCreateTeeSecret
  cases service.lookup t with
  | some tenant => rfl
  | none => exact ⟨rfl,fun member => Nat.lt_irrefl _ (linked.draws.used _ member)⟩

-- An ingest whose build is going to fail takes its place as it gets its secret.
theorem Linked.doom (linked : Linked around service turns now) (at_ : service.calls caller = some (.invoked (.ingestKgFor t u kg p)))
    (fails : around.build t u kg p (service.orCreateTeeSecret t).1 = .error text) :
    ∃ turns' next, Sequentially around now (.ingestKgFor t u kg p) (.failed text : Reply Ctx) next ∧
      Linked around ({service with drawn:=if (service.orCreateTeeSecret t).2 then service.drawn + 1 else service.drawn}.stand caller
        (.ingesting t u kg p (service.orCreateTeeSecret t).1 (service.orCreateTeeSecret t).2)) turns' next := by
  obtain ⟨invoked,unanswered,place⟩ := linked.progress.running caller _ _ at_ rfl
  have secret := linked.secret t
  generalize service.orCreateTeeSecret t = read at fails secret ⊢
  obtain ⟨d,drew⟩ := read
  obtain ⟨next,steps,same,used⟩ : ∃ next, Sequentially around now (.ingestKgFor t u kg p) (.failed text : Reply Ctx) next ∧
      next.tenants = now.tenants ∧ ∀ d' ∈ next.used, d' ∈ now.used ∨ d' = d ∧ drew = true := by
    refine ⟨⟨now.tenants,if drew then d :: now.used else now.used⟩,⟨d,?_,by rw [fails]; exact ⟨rfl,rfl⟩⟩,rfl,fun d' member => ?_⟩
    · cases found : now.tenants t with
      | none =>
          rw [found] at secret
          obtain ⟨same,unused⟩ := secret
          cases same
          exact ⟨unused,rfl⟩
      | some tenant =>
          rw [found] at secret
          cases secret
          exact ⟨rfl,rfl⟩
    · cases drew with
      | false => exact .inl member
      | true => exact (List.mem_cons.mp member).symm.imp_right fun is => ⟨is,rfl⟩
  have fresh : drew = true → d = service.drawn := by
    intro yes
    cases found : now.tenants t with
    | none => rw [found] at secret; cases secret.1; rfl
    | some tenant => rw [found] at secret; cases secret; cases yes
  have old : drew = false → d < service.drawn := by
    intro no
    cases found : now.tenants t with
    | none => rw [found] at secret; cases secret.1; cases no
    | some tenant =>
        rw [found] at secret
        cases secret
        exact linked.draws.used _ (linked.draws.sound t tenant found)
  have shelves : Shelves around service (turns ++ [turnOf none service now caller (.ingestKgFor t u kg p) (.failed text) next]) next :=
    linked.shelves.look rfl same
  refine ⟨_,_,steps,linked.log.place none invoked unanswered place steps,shelves.frame _ _ _,?_,?_,?_⟩
  · refine linked.progress.move rfl (List.append_nil _).symm (fun event member => absurd member List.not_mem_nil) ?_ ?_ fun call is => ?_
    · intro e member
      rw [order_snoc]
      exact List.mem_append_left _ member
    · intro e member other
      rw [order_snoc] at member
      rcases List.mem_append.mp member with old | new
      · exact old
      · rw [List.mem_singleton.mp new] at other
        exact absurd rfl other
    · cases is
      refine ⟨invoked,unanswered,?_⟩
      simp only [Phase.settled,fails]
      rw [order_snoc]
      exact List.mem_append_right _ (List.mem_singleton_self _)
  · have below : d < (if drew then service.drawn + 1 else service.drawn) := by
      cases drew with
      | false => exact old rfl
      | true => rw [fresh rfl]; exact Nat.lt_succ_self _
    refine linked.draws.move rfl ?_ ?_ (fun d' member => ?_) (Sequentially.sound steps linked.draws.sound)
    · show service.drawn ≤ if drew then service.drawn + 1 else service.drawn
      split <;> omega
    · intro t' u' kg' p' d' drew' is
      cases is
      refine ⟨below,fun yes => ⟨Nat.le_of_eq (fresh yes).symm,fun tenant built => ?_⟩⟩
      rw [fails] at built
      cases built
    · rcases used d' member with before | ⟨is,yes⟩
      · exact .inl before
      · refine .inr ⟨by rw [is]; exact below,fun other t' u' kg' p' apart at_' => ?_⟩
        have earlier := linked.draws.drawn other _ _ _ _ _ _ at_'
        rw [is,fresh yes] at earlier
        exact Nat.lt_irrefl _ earlier
  · refine linked.holding.move linked.progress rfl (List.append_nil _).symm (fun t arc found => .inl found) ?_ fun t q n arc same => by cases same
    exact fun turn member k keyed => ⟨turn,List.mem_append_left _ member,keyed,rfl⟩

-- One whose build is going to succeed only has its secret.
theorem Linked.secure (linked : Linked around service turns now) (at_ : service.calls caller = some (.invoked (.ingestKgFor t u kg p)))
    (builds : around.build t u kg p (service.orCreateTeeSecret t).1 = .ok tenant) :
    Linked around ({service with drawn:=if (service.orCreateTeeSecret t).2 then service.drawn + 1 else service.drawn}.stand caller
      (.ingesting t u kg p (service.orCreateTeeSecret t).1 (service.orCreateTeeSecret t).2)) turns now := by
  have secret := linked.secret t
  generalize service.orCreateTeeSecret t = read at builds secret ⊢
  obtain ⟨d,drew⟩ := read
  refine linked.proceed at_ rfl rfl rfl (by simp only [Phase.settled,builds]) _ ?_ ?_ fun t q n arc same => by cases same
  · dsimp only
    split <;> omega
  · intro t' u' kg' p' d' drew' is
    cases is
    dsimp only
    cases found : now.tenants t with
    | none =>
        rw [found] at secret
        obtain ⟨same,unused⟩ := secret
        cases same
        exact ⟨Nat.lt_succ_self _,fun _ => ⟨Nat.le_refl _,fun _ _ => unused⟩⟩
    | some old =>
        rw [found] at secret
        cases secret
        exact ⟨linked.draws.used _ (linked.draws.sound t old found),fun no => by cases no⟩

theorem overwrites_ingest (built : around.build t u kg p d = .ok tenant) (steps : Sequentially around now (.ingestKgFor t u kg p) (.done : Reply Ctx) next)
    (secret : ∀ old, now.tenants t = some old → old.teeUserXSk = d) (caller : Nat) (key : Option (String × Nat)) (since : Nat) :
    Overwrites around (⟨key,[],now,⟨caller,.ingestKgFor t u kg p,.done⟩,next,since⟩ : Turn Kg Params Store Query Ctx) t := by
  intro old other found alike
  obtain ⟨d',drawn,after⟩ := steps
  dsimp only at found
  rw [found] at drawn
  refine ⟨d',?_,?_⟩
  · simp only [Function.update_self]
    exact ⟨drawn.1.trans alike.symm,drawn.2⟩
  · have same : d' = d := drawn.1.trans (secret old found)
    subst same
    rw [built] at after ⊢
    exact ⟨rfl,by rw [after.2,Function.update_idem]⟩

-- An ingest whose tenant has kept to what it read puts its store into the table.
theorem Linked.put (linked : Linked around service turns now) (at_ : service.calls caller = some (.ingesting t u kg p d drew))
    (built : around.build t u kg p d = .ok tenant) (clear : (service.lookup t).map Tenant.teeUserXSk = if drew then none else some d) :
    ∃ turns' next, Sequentially around now (.ingestKgFor t u kg p) (.done : Reply Ctx) next ∧
      Linked around ((service.insert t tenant).finish caller .done) turns' next := by
  rw [←linked.shelves.table] at clear
  obtain ⟨next,steps,after,used⟩ : ∃ next, Sequentially around now (.ingestKgFor t u kg p) (.done : Reply Ctx) next ∧
      next.tenants = Function.update now.tenants t (some tenant) ∧ ∀ d' ∈ next.used, d' ∈ now.used ∨ d' = d ∧ drew = true := by
    refine ⟨⟨Function.update now.tenants t (some tenant),if drew then d :: now.used else now.used⟩,⟨d,?_,by rw [built]; exact ⟨rfl,rfl⟩⟩,
      rfl,fun d' member => ?_⟩
    · cases drew with
      | false =>
          obtain ⟨old,found,is⟩ := Option.map_eq_some_iff.mp clear
          rw [found]
          exact ⟨is.symm,rfl⟩
      | true =>
          rw [Option.map_eq_none_iff.mp clear]
          exact ⟨linked.draws.unused caller _ _ _ _ _ _ at_ built,rfl⟩
    · cases drew with
      | false => exact .inl member
      | true => exact (List.mem_cons.mp member).symm.imp_right fun is => ⟨is,rfl⟩
  have secret : ∀ old, now.tenants t = some old → old.teeUserXSk = d := by
    intro old found
    rw [found] at clear
    cases drew with
    | false => exact Option.some.inj clear
    | true => cases clear
  have shelves : Shelves around (service.insert t tenant)
      (turns ++ [turnOf ((service.tenants t).map fun arc => (t,arc)) service now caller (.ingestKgFor t u kg p) .done next]) next :=
    linked.shelves.replace (some tenant) rfl rfl (overwrites_ingest built steps secret caller _ _) after
  refine ⟨_,_,steps,linked.settle at_ rfl (by simp only [Phase.settled,built]) _ steps rfl rfl rfl shelves ?_ ?_⟩
  · intro t' arc found
    by_cases same : t' = t
    · subst same
      exact .inr (by rw [found]; rfl)
    · exact .inl ((Function.update_of_ne same _ _).trans found)
  · intro d' member
    rcases used d' member with old | ⟨rfl,rfl⟩
    · exact .inl old
    · exact .inr ⟨t,u,kg,p,rfl⟩

end Ingest

theorem remove_eq (service : Service Kg Params Store Query Ctx) (t : String) : service.remove t = replaced service t none := by
  simp [LightRagTwoPartyService.remove,replaced]

theorem Linked.forget (linked : Linked around service turns now) (at_ : service.calls caller = some (.invoked (.forgetTenant t))) :
    ∃ turns' next, Sequentially around now (.forgetTenant t) (.done : Reply Ctx) next ∧
      Linked around ((service.remove t).finish caller .done) turns' next := by
  have steps : Sequentially around now (.forgetTenant t) (.done : Reply Ctx) ⟨Function.update now.tenants t none,now.used⟩ := ⟨rfl,rfl⟩
  have shelves : Shelves around (service.remove t)
      (turns ++ [turnOf ((service.tenants t).map fun arc => (t,arc)) service now caller (.forgetTenant t) .done
        ⟨Function.update now.tenants t none,now.used⟩]) ⟨Function.update now.tenants t none,now.used⟩ := by
    rw [remove_eq]
    refine linked.shelves.replace none rfl rfl (fun old other found alike => ?_) rfl
    exact ⟨rfl,by rw [Function.update_idem]⟩
  refine ⟨_,_,steps,linked.settle at_ rfl rfl _ steps rfl rfl rfl shelves ?_ fun d member => .inl member⟩
  intro t' arc found
  by_cases same : t' = t
  · subst same
    exact .inr (by rw [found]; rfl)
  · exact .inl ((Function.update_of_ne same _ _).trans found)

-- A look at the table.
theorem Linked.look (linked : Linked around service turns now) (at_ : service.calls caller = some (.invoked call))
    (steps : Sequentially around now call reply now) : ∃ turns', Linked around (service.finish caller reply) turns' now :=
  ⟨_,linked.settle at_ rfl rfl none steps rfl rfl rfl (linked.shelves.look rfl rfl) (fun t arc found => .inl found) fun d member => .inl member⟩

section Query
variable {t : String} {q : Query} {n : Bytes} {arc : Nat} {tenant : Tenant Store}

-- A query whose tenant is in the table still.
theorem Linked.ask (linked : Linked around service turns now) (at_ : service.calls caller = some (.querying t q n arc))
    (found : service.tenants t = some arc) (read : service.arcs[arc]? = some tenant) :
    ∃ turns' next, Sequentially around now (.queryFor t q n) (around.ask tenant q n).1 next ∧
      Linked around ({service with arcs:=service.arcs.set arc (around.ask tenant q n).2}.finish caller (around.ask tenant q n).1) turns' next := by
  have held : now.tenants t = some tenant := by
    rw [linked.shelves.table]
    unfold LightRagTwoPartyService.lookup
    rw [found]
    exact read
  have steps : Sequentially around now (.queryFor t q n) (around.ask tenant q n).1
      ⟨Function.update now.tenants t (some (around.ask tenant q n).2),now.used⟩ := by
    simp only [Sequentially,held]
    exact ⟨trivial,trivial⟩
  exact ⟨_,_,steps,linked.settle at_ rfl rfl none steps rfl rfl rfl (linked.shelves.ask rfl found rfl) (fun t arc found => .inl found)
    fun d member => .inl member⟩

-- One whose tenant has left it takes its place before the call that took the
-- tenant out.
theorem Linked.late (linked : Linked around service turns now) (at_ : service.calls caller = some (.querying t q n arc))
    (left : service.tenants t ≠ some arc) (read : service.arcs[arc]? = some tenant) :
    ∃ turns', Linked around ({service with arcs:=service.arcs.set arc (around.ask tenant q n).2}.finish caller (around.ask tenant q n).1)
      turns' now := by
  obtain ⟨invoked,unanswered,place⟩ := linked.progress.running caller _ _ at_ rfl
  obtain ⟨turn,member,keyed,began⟩ := (linked.holding caller t q n arc at_).resolve_left left
  obtain ⟨before,after,rfl⟩ := List.append_of_mem member
  have ended := linked.shelves.ended turn member t arc keyed
  have shown := ended.shown.trans read
  have steps : Sequentially around turn.before (.queryFor t q n) (around.ask tenant q n).1
      ⟨Function.update turn.before.tenants t (some (around.ask tenant q n).2),turn.before.used⟩ := by
    simp only [Sequentially,shown]
    exact ⟨trivial,trivial⟩
  have still := ended.overwrites tenant (around.ask tenant q n).2 shown (asked_secret tenant q n)
  have joined := linked.log.join began unanswered place steps still
  have perm := Log.order_join before after turn (⟨caller,.queryFor t q n,(around.ask tenant q n).1⟩ : Entry (Call Kg Params Query) (Reply Ctx))
    ⟨Function.update turn.before.tenants t (some (around.ask tenant q n).2),turn.before.used⟩
  refine ⟨_,joined.answer (perm.mem_iff.mpr List.mem_cons_self),(linked.shelves.late keyed _ read (asked_secret tenant q n)).frame _ _ _,?_,?_,?_⟩
  · refine linked.progress.move rfl rfl (about_return caller _) (fun e listed => perm.mem_iff.mpr (List.mem_cons_of_mem _ listed))
      (fun e listed other => ?_) fun call none => by cases none
    rcases List.mem_cons.mp (perm.mem_iff.mp listed) with rfl | old
    · exact absurd rfl other
    · exact old
  · exact linked.draws.move rfl (Nat.le_refl _) (fun t u kg p d drew same => by cases same) (fun d member => .inl member) linked.draws.sound
  · refine linked.holding.move linked.progress rfl rfl (fun t arc found => .inl found) (fun other listed key keyed' => ?_)
      fun t q n arc same => by cases same
    rcases List.mem_append.mp listed with first | later
    · exact ⟨other,List.mem_append_left _ first,keyed',rfl⟩
    · rcases List.mem_cons.mp later with rfl | later
      · exact ⟨_,List.mem_append_right _ List.mem_cons_self,keyed',rfl⟩
      · exact ⟨other,List.mem_append_right _ (List.mem_cons_of_mem _ later),keyed',rfl⟩

end Query

-- What a step does in the sequential order: nothing, or the caller's own call.
def Follows (around : Surroundings Kg Params Store Query Ctx) (service : Service Kg Params Store Query Ctx) (label : Label Kg Params Query)
    (now next : Table Store) : Prop :=
  next = now ∨ ∃ caller phase call reply, label = .advance caller ∧ service.calls caller = some phase ∧ phase.call = some call ∧
    Sequentially around now call (reply : Reply Ctx) next

theorem advance_linked (linked : Linked around service turns now) (at_ : service.calls caller = some phase)
    (clear : service.Unclashed around (.advance caller)) (advanced : service.advance around caller phase = some service') :
    ∃ turns' next, Linked around service' turns' next ∧ Follows around service (.advance caller) now next := by
  cases phase with
  | invoked call =>
      cases call with
      | ingestKgFor t u kg p =>
          cases advanced
          cases built : around.build t u kg p (service.orCreateTeeSecret t).1 with
          | error text =>
              obtain ⟨turns',next,steps,linked'⟩ := linked.doom at_ built
              exact ⟨turns',next,linked',.inr ⟨caller,_,_,_,rfl,at_,rfl,steps⟩⟩
          | ok tenant => exact ⟨turns,now,linked.secure at_ built,.inl rfl⟩
      | forgetTenant t =>
          cases advanced
          obtain ⟨turns',next,steps,linked'⟩ := linked.forget at_
          exact ⟨turns',next,linked',.inr ⟨caller,_,_,_,rfl,at_,rfl,steps⟩⟩
      | tenantKnown t =>
          cases advanced
          have known : Sequentially around now (.tenantKnown t) (.known (service.tenants t).isSome) now :=
            ⟨by rw [linked.shelves.known],rfl⟩
          obtain ⟨turns',linked'⟩ := linked.look at_ known
          exact ⟨turns',now,linked',.inl rfl⟩
      | queryFor t q n =>
          unfold LightRagTwoPartyService.advance at advanced
          dsimp only at advanced
          cases found : service.tenants t with
          | none =>
              rw [found] at advanced
              cases advanced
              have unknown : now.tenants t = none := by
                have known := linked.shelves.known t
                rw [found] at known
                exact Option.not_isSome_iff_eq_none.mp (by rw [known]; exact Bool.false_ne_true)
              have refused : Sequentially around now (.queryFor t q n) (.unknownTenant t) now := by
                simp only [Sequentially,unknown]
                exact ⟨trivial,trivial⟩
              obtain ⟨turns',linked'⟩ := linked.look at_ refused
              exact ⟨turns',now,linked',.inl rfl⟩
          | some arc =>
              rw [found] at advanced
              cases advanced
              refine ⟨turns,now,?_,.inl rfl⟩
              exact linked.proceed at_ rfl rfl rfl rfl service.drawn (Nat.le_refl _) (fun t u kg p d drew same => by cases same)
                fun t q n arc same => by cases same; exact found
  | ingesting t u kg p d drew =>
      unfold LightRagTwoPartyService.advance at advanced
      unfold LightRagTwoPartyService.Unclashed at clear
      dsimp only at advanced clear
      rw [at_] at clear
      cases built : around.build t u kg p d with
      | error text =>
          rw [built] at advanced
          cases advanced
          exact ⟨turns,now,linked.report at_ rfl (by simp only [Phase.settled,built]),.inl rfl⟩
      | ok tenant =>
          simp only [built] at advanced clear
          cases advanced
          obtain ⟨turns',next,steps,linked'⟩ := linked.put at_ built clear
          exact ⟨turns',next,linked',.inr ⟨caller,_,_,_,rfl,at_,rfl,steps⟩⟩
  | querying t q n arc =>
      unfold LightRagTwoPartyService.advance at advanced
      dsimp only at advanced
      cases read : service.arcs[arc]? with
      | none => rw [read] at advanced; cases advanced
      | some tenant =>
          rw [read] at advanced
          cases advanced
          by_cases found : service.tenants t = some arc
          · obtain ⟨turns',next,steps,linked'⟩ := linked.ask at_ found read
            exact ⟨turns',next,linked',.inr ⟨caller,_,_,_,rfl,at_,rfl,steps⟩⟩
          · obtain ⟨turns',linked'⟩ := linked.late at_ found read
            exact ⟨turns',now,linked',.inl rfl⟩
  | returned => cases advanced

theorem step_linked (linked : Linked around service turns now) {label : Label Kg Params Query} (clear : service.Unclashed around label)
    (stepped : service.step around label = some ((),service')) :
    ∃ turns' next, Linked around service' turns' next ∧ Follows around service label now next := by
  cases label with
  | invoke caller call =>
      unfold LightRagTwoPartyService.step at stepped
      dsimp only at stepped
      cases free : service.calls caller with
      | some phase => rw [free] at stepped; cases stepped
      | none =>
          rw [free] at stepped
          cases stepped
          exact ⟨turns,now,linked.invoke free call,.inl rfl⟩
  | advance caller =>
      simp only [LightRagTwoPartyService.step,Option.bind_eq_some_iff,Option.map_eq_some_iff,Prod.mk.injEq,true_and] at stepped
      obtain ⟨phase,at_,next,advanced,rfl⟩ := stepped
      exact advance_linked linked at_ clear advanced

def inForce (service : Service Kg Params Store Query Ctx) (tenantId : String) : Option Nat :=
  (service.lookup tenantId).map Tenant.teeUserXSk

theorem Linked.inForce (linked : Linked around service turns now) (tenantId : String) :
    (now.tenants tenantId).map Tenant.teeUserXSk = inForce service tenantId := by
  rw [linked.shelves.table]
  rfl

-- A tenant's secret changes only when a forget takes it away.
theorem step_keeps_secret (linked : Linked around service turns now) {label : Label Kg Params Query} (clear : service.Unclashed around label)
    (stepped : service.step around label = some ((),service')) (at_ : inForce service t = some d) :
    inForce service' t = some d ∨ ∃ caller, label = .advance caller ∧ service.calls caller = some (.invoked (.forgetTenant t)) := by
  obtain ⟨turns',next,linked',follows⟩ := step_linked linked clear stepped
  rw [←linked.inForce] at at_
  rw [←linked'.inForce]
  rcases follows with rfl | ⟨caller,phase,call,reply,is,found,calls,steps⟩
  · exact .inl at_
  · rcases steps.secrets linked.draws.sound t with same | ⟨rfl,_⟩ | ⟨none,_⟩
    · exact .inl (same.trans at_)
    · cases phase with
      | invoked call => cases calls; exact .inr ⟨caller,is,found⟩
      | ingesting t u kg p d drew => cases calls
      | querying t q n arc => cases calls
      | returned => cases calls
    · rw [none] at at_; cases at_

-- A secret that was drawn and is not in force stays out of force.
theorem step_retires (linked : Linked around service turns now) {label : Label Kg Params Query} (clear : service.Unclashed around label)
    (stepped : service.step around label = some ((),service')) (drawn : d ∈ now.used) (out : inForce service t ≠ some d) :
    ∃ turns' next, Linked around service' turns' next ∧ d ∈ next.used ∧ inForce service' t ≠ some d := by
  obtain ⟨turns',next,linked',follows⟩ := step_linked linked clear stepped
  rw [←linked.inForce] at out
  refine ⟨turns',next,linked',?_⟩
  rw [←linked'.inForce]
  rcases follows with rfl | ⟨_,_,call,reply,_,_,_,steps⟩
  · exact ⟨drawn,out⟩
  · refine ⟨steps.grows d drawn,?_⟩
    rcases steps.secrets linked.draws.sound t with same | ⟨_,gone⟩ | ⟨_,tenant,found,fresh,_⟩
    · rw [same]; exact out
    · rw [gone]; exact fun is => by cases is
    · rw [found]
      intro is
      cases is
      exact fresh drawn

variable (around) in
-- A run none of whose steps clashes.
inductive CleanRun : Service Kg Params Store Query Ctx → List (Label Kg Params Query) → Service Kg Params Store Query Ctx → Prop where
  | nil (service : Service Kg Params Store Query Ctx) : CleanRun service [] service
  | cons {service middle last : Service Kg Params Store Query Ctx} {label : Label Kg Params Query} {rest : List (Label Kg Params Query)}
      (clear : service.Unclashed around label) (stepped : service.step around label = some ((),middle)) (later : CleanRun middle rest last) :
      CleanRun service (label :: rest) last

theorem CleanRun.linked {labels : List (Label Kg Params Query)} (ran : CleanRun around service labels service')
    (linked : Linked around service turns now) : ∃ turns' next, Linked around service' turns' next ∧ ∀ d ∈ now.used, d ∈ next.used := by
  induction ran generalizing turns now with
  | nil service => exact ⟨turns,now,linked,fun _ member => member⟩
  | cons clear stepped later ih =>
      obtain ⟨turns₁,next₁,linked₁,follows⟩ := step_linked linked clear stepped
      obtain ⟨turns₂,next₂,linked₂,grows⟩ := ih linked₁
      refine ⟨turns₂,next₂,linked₂,fun d member => grows d ?_⟩
      rcases follows with rfl | ⟨_,_,_,_,_,_,_,steps⟩
      · exact member
      · exact steps.grows d member

theorem CleanRun.retires {labels : List (Label Kg Params Query)} (ran : CleanRun around service labels service')
    (linked : Linked around service turns now) (drawn : d ∈ now.used) (out : inForce service t ≠ some d) : inForce service' t ≠ some d := by
  induction ran generalizing turns now with
  | nil service => exact out
  | cons clear stepped later ih =>
      obtain ⟨turns',next,linked',drawn',out'⟩ := step_retires linked clear stepped drawn out
      exact ih linked' drawn' out'

variable (around) in
-- A tenant's store and key come from one secret: the one kept with them.
def Grown (tenantId : String) (tenant : Tenant Store) : Prop :=
  ∃ userXSk kg params base, around.build tenantId userXSk kg params tenant.teeUserXSk = .ok base ∧
    ∃ asked : List (Query × Bytes), tenant = asked.foldl (fun x a => (around.ask x a.1 a.2).2) base

theorem Sequentially.grown {s t : Table Store} (steps : Sequentially around s call reply t)
    (grown : ∀ name tenant, s.tenants name = some tenant → Grown around name tenant) :
    ∀ name tenant, t.tenants name = some tenant → Grown around name tenant := by
  intro name tenant found
  cases call with
  | ingestKgFor tenantId userXSk kg params =>
      obtain ⟨teeSk,_,built⟩ := steps
      cases made : around.build tenantId userXSk kg params teeSk with
      | error text => rw [made] at built; rw [built.2] at found; exact grown name tenant found
      | ok fresh =>
          rw [made] at built
          rw [built.2] at found
          by_cases same : name = tenantId
          · subst same
            rw [Function.update_self] at found
            cases found
            exact ⟨userXSk,kg,params,tenant,by rw [built_secret made]; exact made,[],rfl⟩
          · rw [Function.update_of_ne same] at found
            exact grown name tenant found
  | forgetTenant tenantId =>
      rw [steps.2] at found
      by_cases same : name = tenantId
      · subst same; simp at found
      · simp only [Function.update_of_ne same] at found
        exact grown name tenant found
  | tenantKnown tenantId => rw [steps.2] at found; exact grown name tenant found
  | queryFor tenantId query sessionNonce =>
      simp only [Sequentially] at steps
      cases held : s.tenants tenantId with
      | none => rw [held] at steps; rw [steps.2] at found; exact grown name tenant found
      | some old =>
          rw [held] at steps
          rw [steps.2] at found
          by_cases same : name = tenantId
          · subst same
            simp only [Function.update_self,Option.some.injEq] at found
            subst found
            obtain ⟨u,kg,p,base,built,asked,is⟩ := grown name old held
            exact ⟨u,kg,p,base,built,asked ++ [(query,sessionNonce)],by rw [List.foldl_append,←is]; rfl⟩
          · simp only [Function.update_of_ne same] at found
            exact grown name tenant found

theorem replays_grown {s t : Table Store} {entries : List (Entry (Call Kg Params Query) (Reply Ctx))}
    (replays : Replays (Sequentially around) s entries t) (grown : ∀ name tenant, s.tenants name = some tenant → Grown around name tenant) :
    ∀ name tenant, t.tenants name = some tenant → Grown around name tenant := by
  induction entries generalizing s with
  | nil => cases replays; exact grown
  | cons e rest ih =>
      obtain ⟨next,here,later⟩ := replays
      exact ih later (here.grown grown)

-- Unless an ingest clashes, the calls are as if made one after the other, in an
-- order that keeps to real time; no tenant's store is from another secret than
-- the one kept; a secret changes only when it is forgotten, and then for good.
theorem linearizable_unless_clashed {labels : List (Label Kg Params Query)} (ran : CleanRun around .new labels service) :
    (∃ entries final, Replays (Sequentially around) .new entries final ∧ (∀ t, final.tenants t = service.lookup t) ∧
      (entries.map Entry.caller).Nodup ∧ (∀ e ∈ entries, Event.invoked e.caller e.call ∈ service.history) ∧
      (∀ caller reply, Event.returned caller reply ∈ service.history → ∃ e ∈ entries, e.caller = caller ∧ e.reply = reply) ∧
      ∀ x ∈ entries, ∀ y ∈ entries, ∀ (i j : Nat) reply call, service.history[i]? = some (Event.returned x.caller reply) →
        service.history[j]? = some (Event.invoked y.caller call) → i < j → [x,y].Sublist entries) ∧
    (∀ t tenant, service.lookup t = some tenant → Grown around t tenant) ∧
    (∀ label next, service.Unclashed around label → service.step around label = some ((),next) → ∀ t d, inForce service t = some d →
      inForce next t = some d ∨ ∃ caller, label = .advance caller ∧ service.calls caller = some (.invoked (.forgetTenant t))) ∧
    ∀ middle last between after, CleanRun around service between middle → CleanRun around middle after last →
      ∀ t d, inForce service t = some d → inForce middle t ≠ some d → inForce last t ≠ some d := by
  obtain ⟨turns,now,linked,_⟩ := ran.linked .new
  have replays := linked.log.chain.replays
  refine ⟨⟨order turns,now,replays,linked.shelves.table,linked.log.apart,fun e => linked.log.started,linked.log.answered,?_⟩,?_,?_,?_⟩
  · exact fun x placed y placed' i j reply call returned invoked earlier => linked.log.real_time placed placed' returned invoked earlier
  · intro t tenant found
    exact replays_grown replays (fun _ _ none => by cases none) t tenant ((linked.shelves.table t).trans found)
  · exact fun label next clear stepped t d at_ => step_keeps_secret linked clear stepped at_
  · intro middle last between after ran' ran'' t d at_ out
    obtain ⟨turns',next,linked',grows⟩ := ran'.linked linked
    obtain ⟨tenant,found,is⟩ := Option.map_eq_some_iff.mp ((linked.inForce t).trans at_)
    exact ran''.retires linked' (grows d (is ▸ linked.draws.sound t tenant found)) out

end

@[reducible] def plainSurroundings : Surroundings Unit Unit Unit Unit Unit :=
  ⟨HkdfPolicyV2.v2,fun n => [UInt8.ofNat n],fun _ _ _ => .ok (),fun _ _ _ => (.ok (),())⟩

def runAll (labels : List (Label Unit Unit Unit)) : Option (Service Unit Unit Unit Unit Unit) :=
  labels.foldlM (fun s label => (@LightRagTwoPartyService.step _ _ _ _ _ .joined .joined plainSurroundings s label).map Prod.snd) .new

-- An ingest that read the secret before a forget brings it back after; and the
-- second of two first ingests replaces the first one's secret.
theorem secrets_clash :
    (runAll [.invoke 0 (.ingestKgFor "t" [] () ()),.advance 0,.advance 0]).map (inForce · "t") = some (some 0) ∧
      (runAll [.invoke 0 (.ingestKgFor "t" [] () ()),.advance 0,.advance 0,.invoke 1 (.ingestKgFor "t" [] () ()),.advance 1,
        .invoke 2 (.forgetTenant "t"),.advance 2]).map (inForce · "t") = some none ∧
      (runAll [.invoke 0 (.ingestKgFor "t" [] () ()),.advance 0,.advance 0,.invoke 1 (.ingestKgFor "t" [] () ()),.advance 1,
        .invoke 2 (.forgetTenant "t"),.advance 2,.advance 1]).map (inForce · "t") = some (some 0) ∧
      (runAll [.invoke 0 (.ingestKgFor "t" [] () ()),.advance 0,.invoke 1 (.ingestKgFor "t" [] () ()),.advance 1,.advance 0]).map
        (inForce · "t") = some (some 0) ∧
      (runAll [.invoke 0 (.ingestKgFor "t" [] () ()),.advance 0,.invoke 1 (.ingestKgFor "t" [] () ()),.advance 1,.advance 0,
        .advance 1]).map (inForce · "t") = some (some 1) := by
  decide +kernel

theorem linearizable_unless_clashed_ingest_then_forget : ∃ service : Service Unit Unit Unit Unit Unit,
    runAll [.invoke 0 (.ingestKgFor "t" [] () ()),.advance 0,.advance 0] = some service ∧
      ∀ tenant, service.lookup "t" = some tenant → @Grown Unit Unit Unit Unit Unit .joined .joined plainSurroundings "t" tenant := by
  let _ := HkdfSha256.joined
  let _ := HmacSha256.joined
  have ran : ∃ service, CleanRun plainSurroundings .new [.invoke 0 (.ingestKgFor "t" [] () ()),.advance 0,.advance 0] service ∧
      runAll [.invoke 0 (.ingestKgFor "t" [] () ()),.advance 0,.advance 0] = some service :=
    ⟨_,.cons trivial rfl (.cons trivial rfl (.cons rfl rfl (.nil _))),rfl⟩
  obtain ⟨service,clean,is⟩ := ran
  exact ⟨service,is,(linearizable_unless_clashed clean).2.1 "t"⟩

end TwoParty
