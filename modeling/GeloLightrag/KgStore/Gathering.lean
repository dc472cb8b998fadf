import GeloLightrag.KgStore.Store

namespace KgStore
open Foundation XorMm

-- A table has for each name the strings that are expected of it, and no other names.
structure Gathered (table : HashTable String (List LogicalValue)) (expected : String → List String) (named : String → Prop) : Prop where
  keyed : table.Keyed
  values : ∀ name, (table.get name).getD [] = (expected name).map utf8
  names : ∀ name ∈ table.map Prod.fst, named name

section Pushing
variable {table : HashTable String (List LogicalValue)} {expected : String → List String} {named : String → Prop}

theorem gathered_nil (named : String → Prop) : Gathered [] (fun _ => []) named :=
  ⟨HashTable.keyed_nil,fun _ => rfl,fun _ member => absurd member List.not_mem_nil⟩

theorem Gathered.push (gathered : Gathered table expected named) {name : String} (is : named name) (values : List String) :
    Gathered (pushAll table name (values.map utf8)) (fun other => expected other ++ if other = name then values else []) named := by
  unfold pushAll
  refine ⟨HashTable.keyed_insert gathered.keyed _ _,fun other => ?_,fun other member => ?_⟩
  · split
    · rename_i same
      subst same
      rw [HashTable.get_insert_self,Option.getD_some,gathered.values,List.map_append]
    · rename_i apart
      rw [HashTable.get_insert_of_ne apart,gathered.values,List.append_nil]
  · unfold HashTable.insert at member
    rcases List.mem_cons.mp member with rfl | member
    · exact is
    · obtain ⟨entry,kept,rfl⟩ := List.mem_map.mp member
      exact gathered.names _ (List.mem_map_of_mem (List.mem_filter.mp kept).1)

theorem Gathered.congr {expected' : String → List String} (gathered : Gathered table expected named) (same : ∀ name, expected name = expected' name) :
    Gathered table expected' named :=
  ⟨gathered.keyed,fun name => by rw [gathered.values,same],gathered.names⟩

-- The names of the items gather what each item adds, in order.
theorem fold_gathers {α : Type} {step : HashTable String (List LogicalValue) → α → Except LightKgError (HashTable String (List LogicalValue))}
    {add : α → String → List String} (items : List α) (each : ∀ a ∈ items, ∀ table expected next, Gathered table expected named → step table a = .ok next →
      Gathered next (fun name => expected name ++ add a name) named) (gathered : Gathered table expected named) {final : HashTable String (List LogicalValue)}
    (made : items.foldlM step table = .ok final) : Gathered final (fun name => expected name ++ items.flatMap fun a => add a name) named := by
  induction items generalizing table expected with
  | nil =>
      cases made
      exact gathered.congr fun name => (List.append_nil _).symm
  | cons a rest ih =>
      rw [List.foldlM_cons] at made
      obtain ⟨next,stepped,made⟩ := except_bind_ok.mp made
      have first := each a List.mem_cons_self _ _ _ gathered stepped
      exact (ih (fun other member => each other (List.mem_cons_of_mem _ member)) first made).congr fun name => by
        rw [List.flatMap_cons,List.append_assoc]

-- What the last item leaves is left.
theorem fold_nonempty {α : Type} {step : HashTable String (List LogicalValue) → α → Except LightKgError (HashTable String (List LogicalValue))} {items : List α}
    (some_ : items ≠ []) (each : ∀ table a next, step table a = .ok next → next ≠ []) {final : HashTable String (List LogicalValue)}
    (made : items.foldlM step table = .ok final) : final ≠ [] := by
  rcases List.eq_nil_or_concat items with rfl | ⟨front,last,rfl⟩
  · exact absurd rfl some_
  · rw [List.concat_eq_append,List.foldlM_append] at made
    obtain ⟨middle,_,made⟩ := except_bind_ok.mp made
    rw [List.foldlM_cons] at made
    obtain ⟨next,stepped,made⟩ := except_bind_ok.mp made
    cases made
    exact each _ _ _ stepped

theorem stringToValue_ok {valueBytes : Nat} {s : String} {value : LogicalValue} (made : stringToValue s valueBytes = .ok value) :
    value = utf8 s ∧ (utf8 s).length ≤ valueBytes := by
  unfold stringToValue at made
  split at made
  · cases made
  · rename_i fits
    cases made
    exact ⟨rfl,Nat.le_of_not_lt fits⟩

end Pushing

section Graph
variable {F : Type} {valueBytes : Nat} {table : HashTable String (List LogicalValue)}

def touching (relations : List (Relation F)) (name : String) : List (Relation F) := relations.filter fun r => decide (r.touches name)

def relationKeys (relations : List (Relation F)) (name : String) : List String := (touching relations name).map Relation.canonicalKey

def sourcesOf (entities : List (Entity F)) (name : String) : List String :=
  (entities.filter fun e => decide (e.name = name)).flatMap Entity.sourceChunks

def endpointNames (relations : List (Relation F)) : List String := relations.flatMap fun r => [r.src,r.tgt]

theorem pushRelation_gathers {r : Relation F} {expected : String → List String} {named : String → Prop} {next : HashTable String (List LogicalValue)}
    (gathered : Gathered table expected named) (ends : named r.src ∧ named r.tgt) (pushed : pushRelation valueBytes table r = .ok next) :
    Gathered next (fun name => expected name ++ if r.touches name then [r.canonicalKey] else []) named := by
  unfold pushRelation at pushed
  obtain ⟨value,made,pushed⟩ := except_bind_ok.mp pushed
  obtain ⟨rfl,fits⟩ := stringToValue_ok made
  have first := gathered.push ends.1 [r.canonicalKey]
  dsimp only at pushed
  split at pushed
  · rename_i apart
    rw [made] at pushed
    cases pushed
    refine (first.push ends.2 [r.canonicalKey]).congr fun name => ?_
    by_cases src : r.src = name
    · subst src
      simp [r.touches_iff,apart]
    · by_cases tgt : r.tgt = name
      · subst tgt
        simp [r.touches_iff,Ne.symm src]
      · simp [r.touches_iff,src,tgt,Ne.symm src,Ne.symm tgt]
  · rename_i same
    cases pushed
    rw [Decidable.not_not] at same
    refine first.congr fun name => ?_
    by_cases src : r.src = name
    · simp [r.touches_iff,src]
    · simp [r.touches_iff,←same,src,Ne.symm src]

theorem pushRelation_nonempty {r : Relation F} {next : HashTable String (List LogicalValue)} (pushed : pushRelation valueBytes table r = .ok next) : next ≠ [] := by
  unfold pushRelation at pushed
  obtain ⟨value,made,pushed⟩ := except_bind_ok.mp pushed
  dsimp only at pushed
  split at pushed
  · rw [made] at pushed
    cases pushed
    exact List.cons_ne_nil _ _
  · cases pushed
    exact List.cons_ne_nil _ _

theorem relationKeys_flatMap (relations : List (Relation F)) (name : String) :
    relationKeys relations name = relations.flatMap fun r => if r.touches name then [r.canonicalKey] else [] := by
  unfold relationKeys touching
  induction relations with
  | nil => rfl
  | cons r rest ih =>
      rw [List.flatMap_cons,←ih,List.filter_cons]
      by_cases touches : r.touches name <;> simp [touches]

theorem adjacencyEntries_gathers {relations : List (Relation F)} (made : adjacencyEntries valueBytes relations = .ok table) :
    Gathered table (relationKeys relations) (· ∈ endpointNames relations) := by
  refine (fold_gathers relations (fun r member _ _ _ gathered pushed => pushRelation_gathers gathered ?_ pushed) (gathered_nil _) made).congr fun name => ?_
  · exact ⟨List.mem_flatMap.mpr ⟨r,member,List.mem_cons_self⟩,List.mem_flatMap.mpr ⟨r,member,List.mem_cons_of_mem _ List.mem_cons_self⟩⟩
  · rw [relationKeys_flatMap,List.nil_append]

theorem pushSources_gathers {e : Entity F} {expected : String → List String} {named : String → Prop} {next : HashTable String (List LogicalValue)}
    (gathered : Gathered table expected named) (is : named e.name) (pushed : pushSources valueBytes table e = .ok next) :
    Gathered next (fun name => expected name ++ if name = e.name then e.sourceChunks else []) named := by
  unfold pushSources at pushed
  obtain ⟨values,made,pushed⟩ := except_bind_ok.mp pushed
  obtain ⟨rfl,-⟩ := mapM_determined _ made fun c _ value ran => (stringToValue_ok ran).1
  cases pushed
  exact gathered.push is e.sourceChunks

theorem pushSources_nonempty {e : Entity F} {next : HashTable String (List LogicalValue)} (pushed : pushSources valueBytes table e = .ok next) : next ≠ [] := by
  unfold pushSources at pushed
  obtain ⟨values,_,pushed⟩ := except_bind_ok.mp pushed
  cases pushed
  exact List.cons_ne_nil _ _

theorem sourcesOf_flatMap (entities : List (Entity F)) (name : String) :
    sourcesOf entities name = entities.flatMap fun e => if name = e.name then e.sourceChunks else [] := by
  unfold sourcesOf
  induction entities with
  | nil => rfl
  | cons e rest ih =>
      rw [List.flatMap_cons,←ih,List.filter_cons]
      by_cases same : e.name = name
      · simp [same]
      · simp [same,Ne.symm same]

theorem srcChunksEntries_gathers {entities : List (Entity F)} (made : srcChunksEntries valueBytes entities = .ok table) :
    Gathered table (sourcesOf entities) (· ∈ entities.map Entity.name) := by
  refine (fold_gathers entities (fun e member _ _ _ gathered pushed => pushSources_gathers gathered ?_ pushed) (gathered_nil _) made).congr fun name => ?_
  · exact List.mem_map_of_mem member
  · rw [sourcesOf_flatMap,List.nil_append]

end Graph
end KgStore
