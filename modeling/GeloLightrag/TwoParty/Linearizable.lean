import GeloLightrag.TwoParty.Shelves

namespace TwoParty
open Foundation Foundation.Linearization

section
variable {Kg Params Store Query Ctx : Type} [HkdfSha256] [HmacSha256] (around : Surroundings Kg Params Store Query Ctx)

-- A secret in force has been drawn.
def Table.Sound (s : Table Store) : Prop := ∀ t tenant, s.tenants t = some tenant → tenant.teeUserXSk ∈ s.used

variable {around} in
theorem built_secret {t : String} {u : Bytes} {kg : Kg} {p : Params} {d : Nat} {tenant : Tenant Store}
    (built : around.build t u kg p d = .ok tenant) : tenant.teeUserXSk = d := by
  unfold Surroundings.build at built
  dsimp only at built
  cases made : around.buildFromKg kg p (around.derive t u d) with
  | error e => rw [made] at built; cases built
  | ok store => rw [made] at built; cases built; rfl

variable {around} in
theorem asked_secret (tenant : Tenant Store) (query : Query) (sessionNonce : Bytes) :
    (around.ask tenant query sessionNonce).2.teeUserXSk = tenant.teeUserXSk := rfl

variable {around} in
theorem Sequentially.grows {s t : Table Store} {call : Call Kg Params Query} {reply : Reply Ctx} (steps : Sequentially around s call reply t) :
    ∀ d ∈ s.used, d ∈ t.used := by
  intro d member
  cases call with
  | ingestKgFor tenantId userXSk kg params =>
      obtain ⟨teeSk,secret,_⟩ := steps
      cases found : s.tenants tenantId with
      | none => rw [found] at secret; rw [secret.2]; exact List.mem_cons_of_mem _ member
      | some tenant => rw [found] at secret; rw [secret.2]; exact member
  | forgetTenant tenantId => rw [steps.2]; exact member
  | tenantKnown tenantId => rw [steps.2]; exact member
  | queryFor tenantId query sessionNonce =>
      simp only [Sequentially] at steps
      cases found : s.tenants tenantId with
      | none => rw [found] at steps; rw [steps.2]; exact member
      | some tenant => rw [found] at steps; rw [steps.2]; exact member

variable {around} in
-- What a call does to the secret of a tenant: nothing, or a forget ends it, or an
-- ingest puts one in force that was not drawn before.
theorem Sequentially.secrets {s t : Table Store} {call : Call Kg Params Query} {reply : Reply Ctx} (steps : Sequentially around s call reply t)
    (sound : s.Sound) (name : String) : (t.tenants name).map Tenant.teeUserXSk = (s.tenants name).map Tenant.teeUserXSk ∨
      call = .forgetTenant name ∧ t.tenants name = none ∨
      s.tenants name = none ∧ ∃ tenant, t.tenants name = some tenant ∧ tenant.teeUserXSk ∉ s.used ∧ tenant.teeUserXSk ∈ t.used := by
  cases call with
  | ingestKgFor tenantId userXSk kg params =>
      obtain ⟨teeSk,secret,built⟩ := steps
      cases made : around.build tenantId userXSk kg params teeSk with
      | error text => rw [made] at built; rw [built.2]; exact .inl rfl
      | ok tenant =>
          rw [made] at built
          rw [built.2]
          by_cases same : name = tenantId
          · subst same
            simp only [Function.update_self]
            cases found : s.tenants name with
            | none =>
                rw [found] at secret
                refine .inr (.inr ⟨rfl,tenant,rfl,?_,?_⟩)
                · rw [built_secret made]; exact secret.1
                · rw [built_secret made,secret.2]; exact List.mem_cons_self
            | some old =>
                rw [found] at secret
                exact .inl (congrArg some ((built_secret made).trans secret.1))
          · rw [Function.update_of_ne same]
            exact .inl rfl
  | forgetTenant tenantId =>
      rw [steps.2]
      by_cases same : name = tenantId
      · subst same
        exact .inr (.inl ⟨rfl,Function.update_self _ _ _⟩)
      · simp only [Function.update_of_ne same]
        exact .inl trivial
  | tenantKnown tenantId => rw [steps.2]; exact .inl rfl
  | queryFor tenantId query sessionNonce =>
      simp only [Sequentially] at steps
      cases found : s.tenants tenantId with
      | none => rw [found] at steps; rw [steps.2]; exact .inl rfl
      | some tenant =>
          rw [found] at steps
          rw [steps.2]
          by_cases same : name = tenantId
          · subst same
            simp only [Function.update_self,found]
            exact .inl rfl
          · simp only [Function.update_of_ne same]
            exact .inl trivial

variable {around} in
theorem Sequentially.sound {s t : Table Store} {call : Call Kg Params Query} {reply : Reply Ctx} (steps : Sequentially around s call reply t)
    (sound : s.Sound) : t.Sound := by
  intro name tenant found
  rcases steps.secrets sound name with same | ⟨_,gone⟩ | ⟨_,tenant',found',_,drawn⟩
  · rw [found] at same
    obtain ⟨old,listed,is⟩ := Option.map_eq_some_iff.mp same.symm
    rw [←is]
    exact steps.grows _ (sound name old listed)
  · rw [found] at gone; cases gone
  · rw [found] at found'; cases found'; exact drawn

-- The call a caller is in.
def Phase.call : Phase Kg Params Query → Option (Call Kg Params Query)
  | .invoked call => some call
  | .ingesting tenantId userXSk kg params _ _ => some (.ingestKgFor tenantId userXSk kg params)
  | .querying tenantId query sessionNonce _ => some (.queryFor tenantId query sessionNonce)
  | .returned => none

-- An ingest whose build fails has its answer, and its place, from when it has its
-- secret; every other call has them when it returns.
def Phase.settled : Phase Kg Params Query → Option (Reply Ctx)
  | .ingesting tenantId userXSk kg params teeSk _ =>
    match around.build tenantId userXSk kg params teeSk with
    | .error text => some (.failed text)
    | .ok _ => none
  | _ => none

structure Running (history : List (Event (Call Kg Params Query) (Reply Ctx))) (turns : List (Turn Kg Params Store Query Ctx)) (caller : Nat)
    (call : Call Kg Params Query) (settled : Option (Reply Ctx)) : Prop where
  invoked : Event.invoked caller call ∈ history
  unanswered : ∀ reply, Event.returned caller reply ∉ history
  place : match settled with
    | none => caller ∉ callers turns
    | some reply => ⟨caller,call,reply⟩ ∈ order turns

structure Progress (service : Service Kg Params Store Query Ctx) (turns : List (Turn Kg Params Store Query Ctx)) : Prop where
  idle : ∀ caller, service.calls caller = none → ∀ call, Event.invoked caller call ∉ service.history
  running : ∀ caller phase call, service.calls caller = some phase → phase.call = some call →
    Running service.history turns caller call (phase.settled around)

-- The secrets drawn and not yet in force.
structure Draws (service : Service Kg Params Store Query Ctx) (now : Table Store) : Prop where
  drawn : ∀ caller t u kg p d drew, service.calls caller = some (.ingesting t u kg p d drew) → d < service.drawn
  once : ∀ caller caller' t u kg p t' u' kg' p' d, service.calls caller = some (.ingesting t u kg p d true) →
    service.calls caller' = some (.ingesting t' u' kg' p' d true) → caller = caller'
  used : ∀ d ∈ now.used, d < service.drawn
  unused : ∀ caller t u kg p d tenant, service.calls caller = some (.ingesting t u kg p d true) →
    around.build t u kg p d = .ok tenant → d ∉ now.used
  sound : now.Sound

-- A tenant a query holds is in the table or left it after the query began.
def Holding (service : Service Kg Params Store Query Ctx) (turns : List (Turn Kg Params Store Query Ctx)) : Prop :=
  ∀ caller t q n arc, service.calls caller = some (.querying t q n arc) → service.tenants t = some arc ∨
    ∃ turn ∈ turns, turn.key = some (t,arc) ∧ ∃ k < turn.since, service.history[k]? = some (.invoked caller (.queryFor t q n))

structure Linked (service : Service Kg Params Store Query Ctx) (turns : List (Turn Kg Params Store Query Ctx)) (now : Table Store) :
    Prop where
  log : Log (Sequentially around) .new service.history turns now
  shelves : Shelves around service turns now
  progress : Progress around service turns
  draws : Draws around service now
  holding : Holding service turns

variable {around} {service service' : Service Kg Params Store Query Ctx} {turns turns' : List (Turn Kg Params Store Query Ctx)}
  {now next : Table Store} {caller : Nat} {phase phase' : Phase Kg Params Query} {call : Call Kg Params Query} {reply : Reply Ctx}

theorem Linked.new : Linked around (.new : Service Kg Params Store Query Ctx) [] .new where
  log := .new _
  shelves := .new
  progress := ⟨fun _ _ _ member => absurd member List.not_mem_nil,fun _ _ _ at_ => by cases at_⟩
  draws := ⟨fun _ _ _ _ _ _ _ at_ => by (cases at_),fun _ _ _ _ _ _ _ _ _ _ _ at_ => by (cases at_),
    fun _ member => absurd member List.not_mem_nil,fun _ _ _ _ _ _ _ at_ => by (cases at_),fun _ _ found => by (cases found)⟩
  holding _ _ _ _ _ at_ := by cases at_

-- A step of one caller, as the others see it: the history goes on about that
-- caller only, and only that caller may take a place.
theorem Progress.move (progress : Progress around service turns) {extra : List (Event (Call Kg Params Query) (Reply Ctx))}
    (calls : service'.calls = Function.update service.calls caller (some phase')) (history : service'.history = service.history ++ extra)
    (about : ∀ event ∈ extra, ∀ other, other ≠ caller →
      (∀ call, event ≠ .invoked other call) ∧ ∀ reply, event ≠ .returned other reply)
    (kept : ∀ e ∈ order turns, e ∈ order turns') (placed : ∀ e ∈ order turns', e.caller ≠ caller → e ∈ order turns)
    (own : ∀ call, phase'.call = some call → Running service'.history turns' caller call (phase'.settled around)) :
    Progress around service' turns' where
  idle c none call member := by
    rw [calls] at none
    rw [history] at member
    by_cases same : c = caller
    · subst same
      simp at none
    · rw [Function.update_of_ne same] at none
      rcases List.mem_append.mp member with old | new
      · exact progress.idle c none call old
      · exact ((about _ new c same).1 call) rfl
  running c phase call at_ is := by
    rw [calls] at at_
    by_cases same : c = caller
    · subst same
      rw [Function.update_self] at at_
      cases at_
      exact own call is
    · rw [Function.update_of_ne same] at at_
      obtain ⟨invoked,unanswered,place⟩ := progress.running c phase call at_ is
      rw [history]
      refine ⟨List.mem_append_left _ invoked,fun reply member => ?_,?_⟩
      · rcases List.mem_append.mp member with old | new
        · exact unanswered reply old
        · exact ((about _ new c same).2 reply) rfl
      · cases settled : phase.settled around with
        | none =>
            rw [settled] at place
            intro member
            obtain ⟨e,listed,is⟩ := mem_callers.mp member
            exact place (mem_callers.mpr ⟨e,placed e listed (is ▸ same),is⟩)
        | some reply =>
            rw [settled] at place
            exact kept _ place

theorem Draws.move (draws : Draws around service now) (calls : service'.calls = Function.update service.calls caller (some phase'))
    (more : service.drawn ≤ service'.drawn)
    (own : ∀ t u kg p d drew, phase' = .ingesting t u kg p d drew → d < service'.drawn ∧
      (drew = true → service.drawn ≤ d ∧ ∀ tenant, around.build t u kg p d = .ok tenant → d ∉ next.used))
    (used : ∀ d ∈ next.used, d ∈ now.used ∨ d < service'.drawn ∧
      ∀ other t u kg p, other ≠ caller → service.calls other ≠ some (.ingesting t u kg p d true))
    (sound : next.Sound) : Draws around service' next where
  sound := sound
  drawn c t u kg p d drew at_ := by
    rw [calls] at at_
    by_cases same : c = caller
    · subst same
      rw [Function.update_self] at at_
      exact (own t u kg p d drew (Option.some.inj at_)).1
    · rw [Function.update_of_ne same] at at_
      exact Nat.lt_of_lt_of_le (draws.drawn c t u kg p d drew at_) more
  once c c' t u kg p t' u' kg' p' d at_ at_' := by
    rw [calls] at at_ at_'
    by_cases same : c = caller <;> by_cases same' : c' = caller
    · rw [same,same']
    · subst same
      rw [Function.update_self] at at_
      rw [Function.update_of_ne same'] at at_'
      have fresh := ((own t u kg p d true (Option.some.inj at_)).2 rfl).1
      have old := draws.drawn _ _ _ _ _ _ _ at_'
      omega
    · subst same'
      rw [Function.update_self] at at_'
      rw [Function.update_of_ne same] at at_
      have fresh := ((own t' u' kg' p' d true (Option.some.inj at_')).2 rfl).1
      have old := draws.drawn _ _ _ _ _ _ _ at_
      omega
    · rw [Function.update_of_ne same] at at_
      rw [Function.update_of_ne same'] at at_'
      exact draws.once c c' t u kg p t' u' kg' p' d at_ at_'
  used d member := by
    rcases used d member with old | ⟨below,_⟩
    · exact Nat.lt_of_lt_of_le (draws.used d old) more
    · exact below
  unused c t u kg p d tenant at_ built member := by
    rw [calls] at at_
    by_cases same : c = caller
    · subst same
      rw [Function.update_self] at at_
      exact ((own t u kg p d true (Option.some.inj at_)).2 rfl).2 tenant built member
    · rw [Function.update_of_ne same] at at_
      rcases used d member with old | ⟨_,others⟩
      · exact draws.unused c t u kg p d tenant at_ built old
      · exact others c t u kg p same at_

theorem Holding.move (holding : Holding service turns) (progress : Progress around service turns)
    {extra : List (Event (Call Kg Params Query) (Reply Ctx))}
    (calls : service'.calls = Function.update service.calls caller (some phase')) (history : service'.history = service.history ++ extra)
    (left : ∀ t arc, service.tenants t = some arc → service'.tenants t = some arc ∨
      ∃ turn ∈ turns', turn.key = some (t,arc) ∧ turn.since = service.history.length)
    (keys : ∀ turn ∈ turns, ∀ key, turn.key = some key → ∃ turn' ∈ turns', turn'.key = some key ∧ turn'.since = turn.since)
    (own : ∀ t q n arc, phase' = .querying t q n arc → service'.tenants t = some arc) : Holding service' turns' := by
  intro c t q n arc at_
  rw [calls] at at_
  by_cases same : c = caller
  · subst same
    rw [Function.update_self] at at_
    exact .inl (own t q n arc (Option.some.inj at_))
  · rw [Function.update_of_ne same] at at_
    rw [history]
    have kept : ∀ k event, service.history[k]? = some event → (service.history ++ extra)[k]? = some event := fun k event found => by
      rw [List.getElem?_append_left (List.getElem?_eq_some_iff.mp found).1]
      exact found
    rcases holding c t q n arc at_ with still | ⟨turn,member,keyed,k,early,found⟩
    · rcases left t arc still with now_ | ⟨turn,member,keyed,since⟩
      · exact .inl now_
      · obtain ⟨k,inside,is⟩ := List.mem_iff_getElem.mp (progress.running c _ _ at_ rfl).invoked
        exact .inr ⟨turn,member,keyed,k,by rw [since]; exact inside,kept k _ (by rw [List.getElem?_eq_getElem inside,is])⟩
    · obtain ⟨turn',member',keyed',since⟩ := keys turn member _ keyed
      exact .inr ⟨turn',member',keyed',k,by rw [since]; exact early,kept k _ found⟩

theorem about_return (caller : Nat) (reply : Reply Ctx) : ∀ event ∈ [(.returned caller reply : Event (Call Kg Params Query) (Reply Ctx))],
    ∀ other, other ≠ caller → (∀ call, event ≠ .invoked other call) ∧ ∀ reply, event ≠ .returned other reply := by
  intro event member other apart
  rw [List.mem_singleton.mp member]
  refine ⟨fun call same => (by cases same),fun reply same => ?_⟩
  injection same with one
  exact apart one.symm

abbrev turnOf (key : Option (String × Nat)) (service : Service Kg Params Store Query Ctx) (now : Table Store) (caller : Nat)
    (call : Call Kg Params Query) (reply : Reply Ctx) (next : Table Store) : Turn Kg Params Store Query Ctx :=
  ⟨key,[],now,⟨caller,call,reply⟩,next,service.history.length⟩

theorem order_snoc (turns : List (Turn Kg Params Store Query Ctx)) (key : Option (String × Nat)) (service : Service Kg Params Store Query Ctx)
    (now : Table Store) (caller : Nat) (call : Call Kg Params Query) (reply : Reply Ctx) (next : Table Store) :
    order (turns ++ [turnOf key service now caller call reply next]) = order turns ++ [⟨caller,call,reply⟩] := by
  simp [order,Block.entries,turnOf]

-- A step in which a call takes its place, last of all, and returns.
theorem Linked.settle (linked : Linked around service turns now) (at_ : service.calls caller = some phase) (is : phase.call = some call)
    (unsettled : phase.settled around = none) (key : Option (String × Nat)) (steps : Sequentially around now call reply next)
    (calls : service'.calls = service.calls) (history : service'.history = service.history) (drawn : service'.drawn = service.drawn)
    (shelves : Shelves around service' (turns ++ [turnOf key service now caller call reply next]) next)
    (left : ∀ t arc, service.tenants t = some arc → service'.tenants t = some arc ∨ key = some (t,arc))
    (used : ∀ d ∈ next.used, d ∈ now.used ∨ ∃ t u kg p, phase = .ingesting t u kg p d true) :
    Linked around (service'.finish caller reply) (turns ++ [turnOf key service now caller call reply next]) next := by
  obtain ⟨invoked,unanswered,place⟩ := linked.progress.running caller phase call at_ is
  rw [unsettled] at place
  have placed := linked.log.place key invoked unanswered place steps
  have listed : (⟨caller,call,reply⟩ : Entry (Call Kg Params Query) (Reply Ctx)) ∈
      order (turns ++ [turnOf key service now caller call reply next]) := by
    rw [order_snoc]
    simp
  have calls' : (service'.finish caller reply).calls = Function.update service.calls caller (some .returned) := by rw [←calls]; rfl
  have history' : (service'.finish caller reply).history = service.history ++ [.returned caller reply] := by rw [←history]; rfl
  have drawn' : (service'.finish caller reply).drawn = service.drawn := drawn
  refine ⟨?_,shelves.frame _ _ _,?_,?_,?_⟩
  · rw [history']
    exact placed.answer listed
  · refine linked.progress.move calls' history' (about_return caller reply) ?_ ?_ fun call none => by cases none
    · intro e member
      rw [order_snoc]
      exact List.mem_append_left _ member
    · intro e member other
      rw [order_snoc] at member
      rcases List.mem_append.mp member with old | new
      · exact old
      · rw [List.mem_singleton.mp new] at other
        exact absurd rfl other
  · refine linked.draws.move calls' (Nat.le_of_eq drawn'.symm) (fun t u kg p d drew same => by cases same) (fun d member => ?_)
      (Sequentially.sound steps linked.draws.sound)
    rcases used d member with old | ⟨t,u,kg,p,rfl⟩
    · exact .inl old
    · refine .inr ⟨?_,fun other t' u' kg' p' apart at_' => apart (linked.draws.once other caller _ _ _ _ _ _ _ _ _ at_' at_)⟩
      rw [drawn']
      exact linked.draws.drawn caller _ _ _ _ _ _ at_
  · refine linked.holding.move linked.progress calls' history' ?_ ?_ fun t q n arc same => by cases same
    · intro t arc found
      rcases left t arc found with still | gone
      · exact .inl still
      · exact .inr ⟨_,List.mem_append_right _ (List.mem_singleton_self _),gone,rfl⟩
    · exact fun turn member k keyed => ⟨turn,List.mem_append_left _ member,keyed,rfl⟩

-- A call that has its place returns.
theorem Linked.report (linked : Linked around service turns now) (at_ : service.calls caller = some phase) (is : phase.call = some call)
    (settled : phase.settled around = some reply) : Linked around (service.finish caller reply) turns now := by
  obtain ⟨_,_,place⟩ := linked.progress.running caller phase call at_ is
  rw [settled] at place
  refine ⟨linked.log.answer place,linked.shelves.frame _ _ _,?_,?_,?_⟩
  · exact linked.progress.move rfl rfl (about_return caller reply) (fun e member => member) (fun e member _ => member) fun call none => by cases none
  · exact linked.draws.move rfl (Nat.le_refl _) (fun t u kg p d drew same => by cases same) (fun d member => .inl member) linked.draws.sound
  · exact linked.holding.move linked.progress rfl rfl (fun t arc found => .inl found) (fun turn member k keyed => ⟨turn,member,keyed,rfl⟩)
      fun t q n arc same => by cases same

-- A step in which a call goes on without a place.
theorem Linked.proceed (linked : Linked around service turns now) (at_ : service.calls caller = some phase) (is : phase.call = some call)
    (unsettled : phase.settled around = none) (same : phase'.call = some call) (still : phase'.settled around = none) (drawn : Nat)
    (more : service.drawn ≤ drawn)
    (own : ∀ t u kg p d drew, phase' = .ingesting t u kg p d drew → d < drawn ∧
      (drew = true → service.drawn ≤ d ∧ ∀ tenant, around.build t u kg p d = .ok tenant → d ∉ now.used))
    (held : ∀ t q n arc, phase' = .querying t q n arc → service.tenants t = some arc) :
    Linked around ({service with drawn:=drawn}.stand caller phase') turns now := by
  have running := linked.progress.running caller phase call at_ is
  refine ⟨linked.log,linked.shelves.frame _ _ _,?_,?_,?_⟩
  · refine linked.progress.move rfl (List.append_nil _).symm (fun event member => absurd member List.not_mem_nil) (fun e member => member)
      (fun e member _ => member) fun call' is' => ?_
    rw [same] at is'
    cases is'
    rw [still]
    rw [unsettled] at running
    exact running
  · exact linked.draws.move rfl more own (fun d member => .inl member) linked.draws.sound
  · exact linked.holding.move linked.progress rfl (List.append_nil _).symm (fun t arc found => .inl found)
      (fun turn member k keyed => ⟨turn,member,keyed,rfl⟩) held

end
end TwoParty
