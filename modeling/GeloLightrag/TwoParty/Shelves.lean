import GeloLightrag.TwoParty.Service

namespace TwoParty
open Foundation Foundation.Linearization

section
variable {Kg Params Store Query Ctx : Type} [HkdfSha256] [HmacSha256] (around : Surroundings Kg Params Store Query Ctx)

-- A block that took a shared tenant out of the table carries the two's names.
abbrev Turn (Kg Params Store Query Ctx : Type) :=
  Block (Table Store) (Option (String × Nat)) (Call Kg Params Query) (Reply Ctx)

abbrev Service (Kg Params Store Query Ctx : Type) := LightRagTwoPartyService Kg Params Store Query Ctx

-- The block's call does the same whatever has become of the tenant's store.
def Overwrites (turn : Turn Kg Params Store Query Ctx) (tenantId : String) : Prop :=
  ∀ tenant tenant', turn.before.tenants tenantId = some tenant → tenant'.teeUserXSk = tenant.teeUserXSk →
    Sequentially around ⟨Function.update turn.before.tenants tenantId (some tenant'),turn.before.used⟩ turn.main.call turn.main.reply
      turn.after

structure Ended (service : Service Kg Params Store Query Ctx) (turn : Turn Kg Params Store Query Ctx) (tenantId : String) (arc : Nat) :
    Prop where
  bounded : arc < service.arcs.length
  gone : ∀ tenantId', service.tenants tenantId' ≠ some arc
  shown : turn.before.tenants tenantId = service.arcs[arc]?
  overwrites : Overwrites around turn tenantId

-- The table and the shared tenants against the sequential order: one in the table
-- is the order's latest, one out of it is as the order has it just before the
-- call that took it out.
structure Shelves (service : Service Kg Params Store Query Ctx) (turns : List (Turn Kg Params Store Query Ctx)) (now : Table Store) :
    Prop where
  table : ∀ tenantId, now.tenants tenantId = service.lookup tenantId
  bounded : ∀ tenantId arc, service.tenants tenantId = some arc → arc < service.arcs.length
  apart : ∀ tenantId tenantId' arc, service.tenants tenantId = some arc → service.tenants tenantId' = some arc → tenantId = tenantId'
  ended : ∀ turn ∈ turns, ∀ tenantId arc, turn.key = some (tenantId,arc) → Ended around service turn tenantId arc
  once : ((turns.filterMap Block.key).map Prod.snd).Nodup

variable {around} {service : Service Kg Params Store Query Ctx} {turns : List (Turn Kg Params Store Query Ctx)} {now next : Table Store}
  {tenantId : String} {arc : Nat} {tenant : Tenant Store}

theorem Shelves.new : Shelves around (.new : Service Kg Params Store Query Ctx) [] .new where
  table _ := rfl
  bounded _ _ found := by cases found
  apart _ _ _ found := by cases found
  ended _ member := absurd member List.not_mem_nil
  once := .nil

theorem Shelves.at_ (shelves : Shelves around service turns now) (found : service.tenants tenantId = some arc) :
    ∃ tenant, service.arcs[arc]? = some tenant ∧ service.lookup tenantId = some tenant := by
  have inside := shelves.bounded tenantId arc found
  refine ⟨service.arcs[arc],List.getElem?_eq_getElem inside,?_⟩
  unfold LightRagTwoPartyService.lookup
  rw [found]
  exact List.getElem?_eq_getElem inside

theorem Shelves.known (shelves : Shelves around service turns now) (tenantId : String) :
    (now.tenants tenantId).isSome = (service.tenants tenantId).isSome := by
  rw [shelves.table]
  cases found : service.tenants tenantId with
  | none => simp [LightRagTwoPartyService.lookup,found]
  | some arc =>
      obtain ⟨tenant,_,read⟩ := shelves.at_ found
      rw [read]
      rfl

-- The shelves are the table and the shared tenants only.
theorem Shelves.frame (shelves : Shelves around service turns now) (drawn : Nat) (calls : Nat → Option (Phase Kg Params Query))
    (history : List (Event (Call Kg Params Query) (Reply Ctx))) :
    Shelves around {service with drawn:=drawn,calls:=calls,history:=history} turns now :=
  ⟨shelves.table,shelves.bounded,shelves.apart,fun turn member t a keyed =>
    let ended := shelves.ended turn member t a keyed
    ⟨ended.bounded,ended.gone,ended.shown,ended.overwrites⟩,shelves.once⟩

-- A call that leaves the table alone.
theorem Shelves.look (shelves : Shelves around service turns now) {turn : Turn Kg Params Store Query Ctx} (unkeyed : turn.key = none)
    (same : next.tenants = now.tenants) : Shelves around service (turns ++ [turn]) next where
  table t := by rw [same]; exact shelves.table t
  bounded := shelves.bounded
  apart := shelves.apart
  ended turn' member t a keyed := by
    rcases List.mem_append.mp member with old | new
    · exact shelves.ended turn' old t a keyed
    · rw [List.mem_singleton.mp new,unkeyed] at keyed
      cases keyed
  once := by
    rw [List.filterMap_append]
    simpa [unkeyed] using shelves.once

-- What an ingest and a forget do to the table.
def replaced (service : Service Kg Params Store Query Ctx) (tenantId : String) (fresh : Option (Tenant Store)) :
    Service Kg Params Store Query Ctx :=
  {service with
    tenants:=Function.update service.tenants tenantId (fresh.map fun _ => service.arcs.length)
    arcs:=service.arcs ++ fresh.toList}

theorem replaced_lookup (shelves : Shelves around service turns now) (tenantId : String) (fresh : Option (Tenant Store)) :
    (replaced service tenantId fresh).lookup = Function.update service.lookup tenantId fresh := by
  funext t
  unfold replaced LightRagTwoPartyService.lookup
  by_cases same : t = tenantId
  · subst same
    simp only [Function.update_self]
    cases fresh with
    | none => rfl
    | some tenant => simp
  · simp only [Function.update_of_ne same]
    cases found : service.tenants t with
    | none => rfl
    | some arc => exact List.getElem?_append_left (shelves.bounded t arc found)

theorem Shelves.replace (shelves : Shelves around service turns now) {turn : Turn Kg Params Store Query Ctx} (fresh : Option (Tenant Store))
    (keyed : turn.key = (service.tenants tenantId).map fun arc => (tenantId,arc)) (before : turn.before = now)
    (overwrites : Overwrites around turn tenantId) (after : next.tenants = Function.update now.tenants tenantId fresh) :
    Shelves around (replaced service tenantId fresh) (turns ++ [turn]) next where
  table t := by
    have all : now.tenants = service.lookup := funext shelves.table
    rw [after,all,replaced_lookup shelves]
  bounded t a found := by
    unfold replaced at found ⊢
    rw [List.length_append]
    by_cases same : t = tenantId
    · subst same
      simp only [Function.update_self] at found
      cases fresh with
      | none => cases found
      | some tenant => cases found; simp
    · simp only [Function.update_of_ne same] at found
      exact Nat.lt_add_right _ (shelves.bounded t a found)
  apart t t' a found found' := by
    unfold replaced at found found'
    have fresh_ : ∀ t, t ≠ tenantId → service.tenants t ≠ some service.arcs.length := fun t _ listed =>
      Nat.lt_irrefl _ (shelves.bounded t _ listed)
    have new : ∀ {b}, (fresh.map fun _ => service.arcs.length) = some b → b = service.arcs.length := by
      intro b is
      cases fresh with
      | none => cases is
      | some _ => cases is; rfl
    by_cases same : t = tenantId <;> by_cases same' : t' = tenantId
    · rw [same,same']
    · subst same
      simp only [Function.update_self,Function.update_of_ne same'] at found found'
      exact absurd (new found ▸ found') (fresh_ t' same')
    · subst same'
      simp only [Function.update_self,Function.update_of_ne same] at found found'
      exact absurd (new found' ▸ found) (fresh_ t same)
    · simp only [Function.update_of_ne same,Function.update_of_ne same'] at found found'
      exact shelves.apart t t' a found found'
  ended turn' member t a keyed' := by
    have away : ∀ a, a < service.arcs.length → (∀ t', t' ≠ tenantId → service.tenants t' ≠ some a) →
        ∀ t', (replaced service tenantId fresh).tenants t' ≠ some a := by
      intro a inside others t' listed
      unfold replaced at listed
      by_cases same : t' = tenantId
      · subst same
        simp only [Function.update_self] at listed
        cases fresh with
        | none => cases listed
        | some _ => cases listed; exact Nat.lt_irrefl _ inside
      · simp only [Function.update_of_ne same] at listed
        exact others t' same listed
    have kept : ∀ a, a < service.arcs.length → (replaced service tenantId fresh).arcs[a]? = service.arcs[a]? := fun a inside =>
      List.getElem?_append_left inside
    have longer : ∀ a, a < service.arcs.length → a < (replaced service tenantId fresh).arcs.length := by
      intro a inside
      show a < (service.arcs ++ fresh.toList).length
      rw [List.length_append]
      exact Nat.lt_add_right _ inside
    rcases List.mem_append.mp member with old | new
    · obtain ⟨inside,gone,shown,past⟩ := shelves.ended turn' old t a keyed'
      exact ⟨longer a inside,away a inside fun t' _ => gone t',shown.trans (kept a inside).symm,past⟩
    · rw [List.mem_singleton.mp new] at keyed' ⊢
      rw [keyed] at keyed'
      obtain ⟨a',found,is⟩ := Option.map_eq_some_iff.mp keyed'
      cases is
      have inside := shelves.bounded _ _ found
      obtain ⟨tenant,at_,read⟩ := shelves.at_ found
      exact ⟨longer a inside,away a inside fun t' other listed => other (shelves.apart _ _ _ listed found),
        by rw [before,shelves.table,read,kept a inside,at_],overwrites⟩
  once := by
    rw [List.filterMap_append,List.map_append,List.nodup_append]
    refine ⟨shelves.once,?_,?_⟩
    · cases found : service.tenants tenantId with
      | none => simp [keyed,found]
      | some arc => simp [keyed,found]
    · intro a old b new same
      obtain ⟨⟨t,a'⟩,listed,rfl⟩ := List.mem_map.mp old
      obtain ⟨turn',member,keyed'⟩ := List.mem_filterMap.mp listed
      cases found : service.tenants tenantId with
      | none => simp [keyed,found] at new
      | some arc =>
          simp [keyed,found] at new
          have gone := (shelves.ended turn' member t a' keyed').gone tenantId
          rw [found] at gone
          exact gone (by rw [←new,←same])

theorem arcs_set_other {arcs : List (Tenant Store)} (other : a ≠ arc) : (arcs.set arc tenant)[a]? = arcs[a]? :=
  List.getElem?_set_ne (Ne.symm other)

-- A query on the tenant the table holds.
theorem Shelves.ask (shelves : Shelves around service turns now) {turn : Turn Kg Params Store Query Ctx} (unkeyed : turn.key = none)
    (found : service.tenants tenantId = some arc) (after : next.tenants = Function.update now.tenants tenantId (some tenant)) :
    Shelves around {service with arcs:=service.arcs.set arc tenant} (turns ++ [turn]) next where
  table t := by
    rw [after]
    unfold LightRagTwoPartyService.lookup
    by_cases same : t = tenantId
    · subst same
      simp only [Function.update_self,found,Option.bind_some]
      rw [List.getElem?_set_self (shelves.bounded _ _ found)]
    · simp only [Function.update_of_ne same]
      rw [shelves.table]
      unfold LightRagTwoPartyService.lookup
      cases listed : service.tenants t with
      | none => rfl
      | some a => exact (arcs_set_other fun is => same (shelves.apart _ _ _ listed (found.trans (congrArg some is.symm)))).symm
  bounded t a listed := by
    rw [List.length_set]
    exact shelves.bounded t a listed
  apart := shelves.apart
  ended turn' member t a keyed := by
    rcases List.mem_append.mp member with old | new
    · obtain ⟨inside,gone,shown,past⟩ := shelves.ended turn' old t a keyed
      have other : a ≠ arc := fun is => gone tenantId (is ▸ found)
      exact ⟨by rw [List.length_set]; exact inside,gone,shown.trans (arcs_set_other other).symm,past⟩
    · rw [List.mem_singleton.mp new,unkeyed] at keyed
      cases keyed
  once := by
    rw [List.filterMap_append]
    simpa [unkeyed] using shelves.once

theorem once_elsewhere {before after : List (Turn Kg Params Store Query Ctx)} {turn other : Turn Kg Params Store Query Ctx} {t : String}
    {a : Nat} (once : (((before ++ turn :: after).filterMap Block.key).map Prod.snd).Nodup) (keyed : turn.key = some (tenantId,arc))
    (member : other ∈ before ∨ other ∈ after) (keyed' : other.key = some (t,a)) : a ≠ arc := by
  rw [List.filterMap_append,List.filterMap_cons,keyed,List.map_append] at once
  simp only [List.map_cons] at once
  have middle := List.nodup_middle.mp once
  rintro rfl
  have listed : ∀ turns : List (Turn Kg Params Store Query Ctx), other ∈ turns → a ∈ (turns.filterMap Block.key).map Prod.snd :=
    fun turns inside => List.mem_map.mpr ⟨(t,a),List.mem_filterMap.mpr ⟨other,inside,keyed'⟩,rfl⟩
  refine (List.nodup_cons.mp middle).1 (List.mem_append.mpr ?_)
  exact member.imp (listed before) (listed after)

-- A query on a tenant that has left the table.
theorem Shelves.late {before after : List (Turn Kg Params Store Query Ctx)} {turn : Turn Kg Params Store Query Ctx}
    (shelves : Shelves around service (before ++ turn :: after) now) (keyed : turn.key = some (tenantId,arc))
    (e : Entry (Call Kg Params Query) (Reply Ctx)) {old : Tenant Store} (at_ : service.arcs[arc]? = some old)
    (secret : tenant.teeUserXSk = old.teeUserXSk) :
    Shelves around {service with arcs:=service.arcs.set arc tenant}
      (before ++ turn.joined e ⟨Function.update turn.before.tenants tenantId (some tenant),turn.before.used⟩ :: after) now := by
  have here := shelves.ended turn (List.mem_append_right _ List.mem_cons_self) tenantId arc keyed
  have others : ∀ turn', turn' ∈ before ∨ turn' ∈ after → ∀ t a, turn'.key = some (t,a) →
      Ended around {service with arcs:=service.arcs.set arc tenant} turn' t a := by
    intro turn' member t a keyed'
    have listed : turn' ∈ before ++ turn :: after := by
      rcases member with first | later
      · exact List.mem_append_left _ first
      · exact List.mem_append_right _ (List.mem_cons_of_mem _ later)
    obtain ⟨inside,gone,shown,past⟩ := shelves.ended turn' listed t a keyed'
    have other := once_elsewhere shelves.once keyed member keyed'
    exact ⟨by rw [List.length_set]; exact inside,gone,shown.trans (arcs_set_other other).symm,past⟩
  refine ⟨fun t => ?_,fun t a listed => ?_,shelves.apart,fun turn' member t a keyed' => ?_,?_⟩
  · rw [shelves.table]
    unfold LightRagTwoPartyService.lookup
    cases listed : service.tenants t with
    | none => rfl
    | some a => exact (arcs_set_other fun is => here.gone t (listed.trans (congrArg some is))).symm
  · rw [List.length_set]
    exact shelves.bounded t a listed
  · rcases List.mem_append.mp member with first | later
    · exact others turn' (.inl first) t a keyed'
    · rcases List.mem_cons.mp later with rfl | later
      · have same : turn.key = some (t,a) := keyed'
        rw [keyed] at same
        cases same
        refine ⟨by rw [List.length_set]; exact here.bounded,here.gone,?_,fun x x' found alike => ?_⟩
        · simp only [Block.joined,Function.update_self]
          rw [List.getElem?_set_self here.bounded]
        · simp only [Block.joined,Function.update_self,Option.some.injEq,Function.update_idem] at found ⊢
          subst found
          exact here.overwrites old x' (here.shown.trans at_) (alike.trans secret)
      · exact others turn' (.inr later) t a keyed'
  · have keys : (before ++ turn.joined e ⟨Function.update turn.before.tenants tenantId (some tenant),turn.before.used⟩ :: after).filterMap
        Block.key = (before ++ turn :: after).filterMap Block.key := by
      simp [Block.joined,List.filterMap_append,List.filterMap_cons]
    rw [keys]
    exact shelves.once

end
end TwoParty
