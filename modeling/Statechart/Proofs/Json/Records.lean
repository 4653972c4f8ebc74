import Mathlib.Data.List.Duplicate
import Mathlib.Data.List.Forall2
import Mathlib.Data.List.Nodup
import Mathlib.Data.Option.Basic
import Statechart.Json.Fields

namespace Statechart.Json

variable {α : Type} {names : List String} {fields given : List (String × Value)} {name : String}
  {value : Value}

section

variable {α β : Type} {step : α → Option β} {items : List α} {results : List β}

theorem mapM_of_forall₂ (each : List.Forall₂ (fun item result => step item = some result)
    items results) : items.mapM step = some results := by
  induction each with
  | nil => rfl
  | cons first _ ih => simp [List.mapM_cons, first, ih]

theorem mapM_map_of_each {write : β → α} (results : List β)
    (each : ∀ result, step (write result) = some result) :
    (results.map write).mapM step = some results :=
  mapM_of_forall₂ <|
    List.forall₂_map_left_iff.mpr (List.forall₂_same.mpr fun result _ => each result)

theorem forall₂_of_mapM (done : items.mapM step = some results) :
    List.Forall₂ (fun item result => step item = some result) items results := by
  induction items generalizing results with
  | nil => obtain rfl := Option.some.inj done; exact .nil
  | cons item items ih =>
      simp only [List.mapM_cons, Option.bind_eq_bind, Option.bind_eq_some_iff,
        Option.pure_def] at done
      obtain ⟨result, first, others, rest, same⟩ := done
      obtain rfl := Option.some.inj same
      exact .cons first (ih rest)

theorem exists_forall₂ {relation : α → β → Prop} {good : β → Prop}
    (each : ∀ item ∈ items, ∃ result, relation item result ∧ good result) :
    ∃ results, List.Forall₂ relation items results ∧ ∀ result ∈ results, good result := by
  induction items with
  | nil => exact ⟨[], .nil, nofun⟩
  | cons item items ih =>
      obtain ⟨result, first, own⟩ := each item (List.mem_cons_self ..)
      obtain ⟨results, rest, others⟩ := ih fun other member =>
        each other (List.mem_cons_of_mem item member)
      exact ⟨result :: results, .cons first rest, List.forall_mem_cons.mpr ⟨own, others⟩⟩

theorem mapM_eq_none_of_mem {item : α} (member : item ∈ items) (failed : step item = none) :
    items.mapM step = none := by
  induction items with
  | nil => contradiction
  | cons other items ih =>
      rw [List.mapM_cons]
      cases List.mem_cons.mp member with
      | inl same => rw [← same, failed]; rfl
      | inr member => cases step other <;> simp [ih member]

end

/-- Named values that make up a record: all names are known, and none occurs twice. -/
structure Fields (names : List String) (fields : List (String × Value)) : Prop where
  known : ∀ field ∈ fields, field.1 ∈ names
  once : (fields.map Prod.fst).Nodup

theorem fields?_ofMembers (strangers : Strangers) (record : Fields names fields) :
    fields? strangers names (.ofMembers fields) = some fields := by
  have known : fields.filter (fun field => names.contains field.1) = fields :=
    List.filter_eq_self.mpr fun field member => by simpa using record.known field member
  rw [Value.ofMembers, fields?, mapM_map_of_each fields]
  · simp only [Option.bind_eq_bind, Option.bind_some, known]
    rw [if_neg fun refused => refused.2 rfl, if_pos record.once]
  · exact fun _ => rfl

theorem mem_of_lookup (found : fields.lookup name = some value) : (name, value) ∈ fields := by
  obtain ⟨before, after, rfl, -⟩ := List.lookup_eq_some_iff.mp found
  simp

theorem lookup_of_mem (once : (fields.map Prod.fst).Nodup) (member : (name, value) ∈ fields) :
    fields.lookup name = some value := by
  obtain ⟨before, after, rfl⟩ := List.append_of_mem member
  refine List.lookup_eq_some_iff.mpr ⟨before, after, rfl, fun other listed => ?_⟩
  rw [List.map_append, List.nodup_append] at once
  have apart := once.2.2 other.1 (List.mem_map_of_mem listed) name (List.mem_cons_self ..)
  exact bne_iff_ne.mpr apart.symm

theorem lookup_eq_none_iff : fields.lookup name = none ↔ name ∉ fields.map Prod.fst := by
  rw [List.lookup_eq_none_iff]
  constructor
  · intro others member
    obtain ⟨field, listed, rfl⟩ := List.mem_map.mp member
    exact bne_iff_ne.mp (others field listed) rfl
  · intro missing field listed
    exact bne_iff_ne.mpr fun same => missing (same ▸ List.mem_map_of_mem listed)

theorem depth_lt_of_mem {key : Option String} {members : List (Option String × Value)}
    (member : (key, value) ∈ members) : value.depth < (Value.object members).depth := by
  have bound : value.depth ≤ depthOfMembers members := by
    induction members with
    | nil => contradiction
    | cons other members ih =>
        rw [depthOfMembers]
        cases List.mem_cons.mp member with
        | inl same => rw [← same]; exact Nat.le_max_left ..
        | inr member => exact Nat.le_trans (ih member) (Nat.le_max_right ..)
  rw [Value.depth]
  exact Nat.lt_succ_of_le bound

theorem depth_lt_of_lookup (found : fields.lookup name = some value) :
    value.depth < (Value.ofMembers fields).depth :=
  depth_lt_of_mem (List.mem_map_of_mem (mem_of_lookup found))

theorem isSound_ofMembers (sound : ∀ field ∈ fields, field.2.isSound = true) :
    (Value.ofMembers fields).isSound = true := by
  rw [Value.ofMembers, Value.isSound]
  induction fields with
  | nil => rfl
  | cons field fields ih =>
      have rest := ih fun other member => sound other (List.mem_cons_of_mem field member)
      simp [membersSound, sound field (List.mem_cons_self ..), rest]

/-- A field that is left out if there is nothing to say, and else spells what is said. -/
inductive Omissible (spells : α → Value → Prop) : Option α → Option Value → Prop where
  | omitted : Omissible spells none none
  | given {content : α} {value : Value} (spelled : spells content value) :
      Omissible spells (some content) (some value)

/-- A field that is left out or null if there is nothing to say. -/
inductive Nullable (spell : α → Value) : Option α → Option Value → Prop where
  | omitted : Nullable spell none none
  | null : Nullable spell none (some .null)
  | given (content : α) : Nullable spell (some content) (some (spell content))

theorem Nullable.of_map {spell : α → Value} (content : Option α) :
    Nullable spell content (content.map spell) := by
  cases content with
  | none => exact .omitted
  | some content => exact .given content

theorem omissible?_eq {spells : α → Value → Prop} {decode : Value → Option α}
    {content : Option α}
    (spelled : Omissible spells content (fields.lookup name))
    (decodes : ∀ content value, spells content value → decode value = some content) :
    omissible? decode name fields = some content := by
  unfold omissible?
  cases found : fields.lookup name with
  | none => rw [found] at spelled; cases spelled; rfl
  | some value =>
      rw [found] at spelled
      cases spelled with
      | given spelled => simp [decodes _ _ spelled]

theorem optional?_eq (decode : Value → Option α) {spell : α → Value} {content : Option α}
    (decodes : ∀ content, decode (spell content) = some content) (notNull : decode .null = none)
    (spelled : Nullable spell content (fields.lookup name)) :
    optional? decode name fields = some content := by
  unfold optional?
  cases found : fields.lookup name with
  | none => rw [found] at spelled; cases spelled; rfl
  | some value =>
      rw [found] at spelled
      cases spelled with
      | null => rfl
      | given content =>
          have decoded := decodes content
          split
          · contradiction
          · next same =>
            rw [Option.some.inj same, notNull] at decoded
            contradiction
          · next same =>
            rw [← Option.some.inj same, decoded]
            rfl

theorem required?_eq (decode : Value → Option α) {content : α}
    (given : fields.lookup name = some value) (decoded : decode value = some content) :
    required? decode name fields = some content := by
  rw [required?, given, Option.bind_some, decoded]

/-- Of a record that is given in part, the fields left out have their default. -/
theorem withDefault?_of_subset {decode : Value → Option α} {own : α} (default : α)
    (part : fields ⊆ given) (once : (given.map Prod.fst).Nodup) (listed : (name, value) ∈ given)
    (decoded : decode value = some own) :
    withDefault? decode default name fields =
      some (if name ∈ fields.map Prod.fst then own else default) := by
  unfold withDefault?
  split
  · next missing => rw [if_neg (lookup_eq_none_iff.mp missing)]
  · next other found =>
    have member := mem_of_lookup found
    have same := (lookup_of_mem once (part member)).symm.trans (lookup_of_mem once listed)
    rw [if_pos (List.mem_map_of_mem member), Option.some.inj same, decoded]

theorem exists_record (names : List String) (rows : List (String × Option Value))
    (named : rows.map Prod.fst = names) (once : names.Nodup) :
    ∃ fields, Fields names fields ∧ (∀ row ∈ rows, fields.lookup row.1 = row.2) ∧
      ∀ field ∈ fields, (field.1, some field.2) ∈ rows := by
  induction rows generalizing names with
  | nil => exact ⟨[], ⟨nofun, List.nodup_nil⟩, nofun, nofun⟩
  | cons row rows ih =>
      subst named
      obtain ⟨name, given⟩ := row
      obtain ⟨fresh, once⟩ := List.nodup_cons.mp once
      obtain ⟨fields, record, found, listed⟩ := ih _ rfl once
      have unnamed : name ∉ fields.map Prod.fst := fun member => by
        obtain ⟨field, own, same⟩ := List.mem_map.mp member
        exact fresh (same ▸ record.known field own)
      have known : ∀ field ∈ fields, field.1 ∈ name :: rows.map Prod.fst := fun field member =>
        List.mem_cons_of_mem name (record.known field member)
      cases given with
      | none =>
          refine ⟨fields, ⟨known, record.once⟩, List.forall_mem_cons.mpr ⟨?_, found⟩,
            fun field member => List.mem_cons_of_mem _ (listed field member)⟩
          exact lookup_eq_none_iff.mpr unnamed
      | some value =>
          refine ⟨(name, value) :: fields, ⟨?_, ?_⟩, ?_, ?_⟩
          · exact List.forall_mem_cons.mpr ⟨List.mem_cons_self .., known⟩
          · exact List.nodup_cons.mpr ⟨unnamed, record.once⟩
          · refine List.forall_mem_cons.mpr ⟨List.lookup_cons_self, fun row member => ?_⟩
            have differ : row.1 ≠ name := fun same =>
              fresh (List.mem_map.mpr ⟨row, member, same⟩)
            rw [List.lookup_cons, beq_false_of_ne differ, found row member]
          · exact List.forall_mem_cons.mpr ⟨List.mem_cons_self .., fun field member =>
              List.mem_cons_of_mem _ (listed field member)⟩

/-- An object that is no record with the given names: it has another member, or repeats one. -/
inductive Misfit (names : List String) (members : List (Option String × Value)) : Prop where
  | stranger {key : Option String} (listed : key ∈ members.map Prod.fst)
      (unknown : ∀ name ∈ names, key ≠ some name)
  | repeated {key : Option String} (twice : List.Duplicate key (members.map Prod.fst))

theorem exists_named_of_fields? {strangers : Strangers} {members : List (Option String × Value)}
    (read : fields? strangers names (.object members) = some fields) :
    ∃ named : List (String × Value), members = named.map (fun field => (some field.1, field.2)) ∧
      fields = named.filter (fun field => names.contains field.1) ∧
      (fields.map Prod.fst).Nodup ∧ (strangers = .refused → fields.length = named.length) := by
  simp only [fields?, Option.bind_eq_bind, Option.bind_eq_some_iff] at read
  obtain ⟨named, each, kept⟩ := read
  have keyed : members = named.map (fun field => (some field.1, field.2)) := by
    have rows := forall₂_of_mapM each
    clear each kept
    induction rows with
    | nil => rfl
    | cons first _ ih =>
        obtain ⟨name, key, rfl⟩ := Option.map_eq_some_iff.mp first
        simp [ih, ← key]
  split at kept
  · contradiction
  · next accepted =>
    split at kept
    · next once =>
      obtain rfl := Option.some.inj kept
      exact ⟨named, keyed, rfl, once, fun refused => by simpa [refused] using accepted⟩
    · contradiction

theorem fields?_eq_none_of_misfit {members : List (Option String × Value)}
    (misfit : Misfit names members) : fields? .refused names (.object members) = none := by
  refine Option.eq_none_iff_forall_ne_some.mpr fun fields read => ?_
  obtain ⟨named, rfl, rfl, once, complete⟩ := exists_named_of_fields? read
  have known := List.length_filter_eq_length_iff.mp (complete rfl)
  cases misfit with
  | stranger listed unknown =>
      obtain ⟨_, member, rfl⟩ := List.mem_map.mp listed
      obtain ⟨field, own, rfl⟩ := List.mem_map.mp member
      exact unknown field.1 (by simpa using known field own) rfl
  | repeated twice =>
      rw [List.filter_eq_self.mpr known] at once
      refine twice.not_nodup ?_
      rw [List.map_map]
      have apart := once.map (Option.some_injective String)
      rwa [List.map_map] at apart

/-- What a value gives for a field: by a member of an object, or by its place in an array. -/
inductive Gives (names : List String) : Value → String → Value → Prop where
  | member {members : List (Option String × Value)} {name : String} {content : Value}
      (listed : (some name, content) ∈ members) : Gives names (.object members) name content
  | place {items : List Value} {name : String} {content : Value}
      (placed : (name, content) ∈ names.zip items) : Gives names (.array items) name content

theorem mem_iff_of_fields? {strangers : Strangers}
    (read : fields? strangers names value = some fields) {content : Value} :
    (name, content) ∈ fields ↔ name ∈ names ∧ Gives names value name content := by
  cases value with
  | object members =>
      obtain ⟨named, rfl, rfl, -, -⟩ := exists_named_of_fields? read
      rw [List.mem_filter, and_comm, List.contains_iff_mem]
      refine and_congr_right fun _ => ⟨fun own => .member (List.mem_map_of_mem own), ?_⟩
      rintro ⟨listed⟩
      obtain ⟨field, own, same⟩ := List.mem_map.mp listed
      obtain ⟨rfl, rfl⟩ : field.1 = name ∧ field.2 = content := by simpa using same
      exact own
  | array items =>
      rw [fields?] at read
      split at read
      · obtain rfl := Option.some.inj read
        refine ⟨fun placed => ⟨(List.of_mem_zip placed).1, .place placed⟩, ?_⟩
        rintro ⟨-, given⟩
        cases given with
        | place placed => exact placed
      · contradiction
  | null | bool | number | text => contradiction

theorem map_fst_zip_sublist (names : List String) (items : List Value) :
    ((names.zip items).map Prod.fst).Sublist names := by
  induction names generalizing items with
  | nil => exact List.Sublist.refl []
  | cons name names ih =>
      cases items with
      | nil => exact List.nil_sublist _
      | cons item items => exact (ih items).cons_cons name

theorem once_of_fields? {strangers : Strangers} (distinct : names.Nodup)
    (read : fields? strangers names value = some fields) : (fields.map Prod.fst).Nodup := by
  cases value with
  | object members =>
      obtain ⟨-, -, -, once, -⟩ := exists_named_of_fields? read
      exact once
  | array items =>
      rw [fields?] at read
      split at read
      · obtain rfl := Option.some.inj read
        exact distinct.sublist (map_fst_zip_sublist names items)
      · contradiction
  | null | bool | number | text => contradiction

theorem lookup_of_gives {strangers : Strangers} {content : Value} (distinct : names.Nodup)
    (read : fields? strangers names value = some fields) (known : name ∈ names)
    (given : Gives names value name content) : fields.lookup name = some content :=
  lookup_of_mem (once_of_fields? distinct read) ((mem_iff_of_fields? read).mpr ⟨known, given⟩)

theorem lookup_eq_none_of_not_gives {strangers : Strangers}
    (read : fields? strangers names value = some fields)
    (absent : ∀ content, ¬Gives names value name content) : fields.lookup name = none :=
  Option.eq_none_iff_forall_ne_some.mpr fun content found =>
    absent content ((mem_iff_of_fields? read).mp (mem_of_lookup found)).2

end Statechart.Json
