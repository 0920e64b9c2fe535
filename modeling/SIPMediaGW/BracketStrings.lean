import SIPMediaGW.BracketBare
import Mathlib.Data.List.Nodup
import Mathlib.Data.List.Perm.Subperm

/-! # The strings of a value

The strings that a value is made of, keys included. Equal values have the same ones, in whatever
order; a reader finds them in the leaves of the text, and loses those of keys that come again. -/
namespace BracketTexts

open FieldMap
open PythonJson

mutual

def strings : Json → List String
  | .null => []
  | .bool _ => []
  | .int _ => []
  | .float _ => []
  | .str s => [s]
  | .arr xs => itemStrings xs
  | .obj d => memberStrings d

def itemStrings : List Json → List String
  | [] => []
  | v :: xs => strings v ++ itemStrings xs

def memberStrings : List (String × Json) → List String
  | [] => []
  | (k, v) :: d => k :: (strings v ++ memberStrings d)

end

def number : Json → Option ℚ
  | .bool b => some (if b then 1 else 0)
  | .int n => some n
  | .float (.finite q) => some q
  | _ => none

mutual

/-- `==` of two values: numbers by their value, dictionaries in any order. -/
inductive Equal : Json → Json → Prop where
  | refl (v : Json) : Equal v v
  | number {v w : Json} {q : ℚ} (hv : number v = some q) (hw : number w = some q) : Equal v w
  | arr {xs ys : List Json} (h : EqualItems xs ys) : Equal (.arr xs) (.arr ys)
  | obj {d e e' : Dict} (h : EqualMembers d e') (hperm : e'.Perm e) : Equal (.obj d) (.obj e)

inductive EqualItems : List Json → List Json → Prop where
  | nil : EqualItems [] []
  | cons {v w : Json} {xs ys : List Json} (hv : Equal v w) (h : EqualItems xs ys) :
      EqualItems (v :: xs) (w :: ys)

inductive EqualMembers : Dict → Dict → Prop where
  | nil : EqualMembers [] []
  | cons {k : String} {v w : Json} {d e : Dict} (hv : Equal v w) (h : EqualMembers d e) :
      EqualMembers ((k, v) :: d) ((k, w) :: e)

end

theorem strings_of_number {v : Json} {q : ℚ} (h : number v = some q) : strings v = [] := by
  cases v with
  | str s => cases h
  | arr xs => cases h
  | obj d => cases h
  | _ => rfl

theorem memberStrings_eq (d : Dict) :
    memberStrings d = d.flatMap fun m => m.1 :: strings m.2 := by
  induction d with
  | nil => rfl
  | cons m d ih => rw [memberStrings, ih, List.flatMap_cons, List.cons_append]

mutual

theorem Equal.strings_perm {v w : Json} : Equal v w → (strings v).Perm (strings w)
  | .refl v => List.Perm.refl _
  | .number hv hw => by rw [strings_of_number hv, strings_of_number hw]
  | .arr h => h.strings_perm
  | @Equal.obj _ e e' h hperm => by
    have hsame : (memberStrings e').Perm (memberStrings e) := by
      rw [memberStrings_eq, memberStrings_eq]
      exact hperm.flatMap_right _
    exact h.strings_perm.trans hsame

theorem EqualItems.strings_perm {xs ys : List Json} :
    EqualItems xs ys → (itemStrings xs).Perm (itemStrings ys)
  | .nil => List.Perm.refl _
  | .cons hv h => hv.strings_perm.append h.strings_perm

theorem EqualMembers.strings_perm {d e : Dict} :
    EqualMembers d e → (memberStrings d).Perm (memberStrings e)
  | .nil => List.Perm.refl _
  | .cons hv h => (hv.strings_perm.append h.strings_perm).cons _

end

def Reading.reads (rd : Reading) (leaf : Leaf) : Bool :=
  if leaf.1 then (rd.text leaf.2).isSome else (rd.atom leaf.2).isSome

section Read

variable {rd : Reading}

theorem isSome_readItems {items : List Raw}
    (h : ∀ r ∈ items, (r.read rd).isSome = r.leaves.all rd.reads) :
    (readItems rd items).isSome = (itemLeaves items).all rd.reads := by
  induction items with
  | nil => rfl
  | cons r items ih =>
    obtain ⟨hr, hitems⟩ := List.forall_mem_cons.mp h
    rw [readItems, itemLeaves, List.all_append, ← hr, ← ih hitems]
    cases r.read rd with
    | none => rfl
    | some v => cases readItems rd items <;> rfl

theorem isSome_readMembers {members : List (Quoted × Raw)}
    (h : ∀ m ∈ members, (m.2.read rd).isSome = m.2.leaves.all rd.reads) :
    (readMembers rd members).isSome = (memberLeaves members).all rd.reads := by
  induction members with
  | nil => rfl
  | cons m members ih =>
    obtain ⟨hm, hmembers⟩ := List.forall_mem_cons.mp h
    rw [readMembers, memberLeaves, List.all_cons, List.all_append, ← hm, ← ih hmembers]
    cases htext : rd.text m.1.body with
    | none => simp [Reading.reads, htext]
    | some k =>
      cases m.2.read rd with
      | none => simp [Reading.reads, htext]
      | some v => cases readMembers rd members <;> simp [Reading.reads, htext]

/-- A text means something where all its leaves do. -/
theorem isSome_read (r : Raw) : (r.read rd).isSome = r.leaves.all rd.reads := by
  induction r using Raw.induct with
  | atom token => simp [Raw.read, Raw.leaves, Reading.reads]
  | text q => simp [Raw.read, Raw.leaves, Reading.reads]
  | list items ih => simpa [Raw.read, Raw.leaves] using isSome_readItems ih
  | dict members ih => simpa [Raw.read, Raw.leaves] using isSome_readMembers ih

def said (rd : Reading) (leaf : Leaf) : Option String := if leaf.1 then rd.text leaf.2 else none

/-- No dictionary has a key twice. -/
inductive Raw.UniqueKeys (rd : Reading) : Raw → Prop where
  | atom (token : List Char) : UniqueKeys rd (.atom token)
  | text (q : Quoted) : UniqueKeys rd (.text q)
  | list {items : List Raw} (h : ∀ r ∈ items, UniqueKeys rd r) : UniqueKeys rd (.list items)
  | dict {members : List (Quoted × Raw)} (keys : (members.map fun m => rd.text m.1.body).Nodup)
      (h : ∀ m ∈ members, UniqueKeys rd m.2) : UniqueKeys rd (.dict members)

theorem memberStrings_put (d : Dict) (k : String) (v : Json) :
    (memberStrings (put d k v)).Subperm (memberStrings d ++ k :: strings v) := by
  induction d with
  | nil =>
    rw [put, memberStrings, memberStrings, memberStrings, List.append_nil, List.nil_append]
  | cons m d ih =>
    obtain ⟨k', w⟩ := m
    by_cases hk : k' = k
    · -- The value that was there goes.
      subst hk
      have hback : (memberStrings d ++ k' :: strings v).Subperm
          (k' :: (strings w ++ memberStrings d) ++ k' :: strings v) := by
        refine List.Sublist.subperm (List.Sublist.append_right ?_ _)
        exact (List.sublist_append_right _ _).cons _
      rw [put, if_pos rfl, memberStrings, memberStrings, ← List.cons_append]
      exact List.perm_append_comm.subperm.trans hback
    · rw [put, if_neg hk, memberStrings, memberStrings, List.cons_append, List.append_assoc,
        List.subperm_cons, List.subperm_append_left]
      exact ih

theorem memberStrings_putAll (d ms : Dict) :
    (memberStrings (putAll d ms)).Subperm (memberStrings d ++ memberStrings ms) := by
  induction ms generalizing d with
  | nil =>
    rw [memberStrings, List.append_nil]
    exact List.Subperm.refl _
  | cons m ms ih =>
    obtain ⟨k, v⟩ := m
    have hput := (List.subperm_append_right (memberStrings ms)).mpr (memberStrings_put d k v)
    have hrest := (ih (put d k v)).trans hput
    rwa [List.append_assoc, List.cons_append] at hrest

theorem strings_readItems {items : List Raw} {vs : List Json} (h : readItems rd items = some vs)
    (hitems : ∀ r ∈ items, ∀ v, r.read rd = some v →
      (strings v).Subperm (r.leaves.filterMap (said rd)) ∧
        (r.UniqueKeys rd → strings v = r.leaves.filterMap (said rd))) :
    (itemStrings vs).Subperm ((itemLeaves items).filterMap (said rd)) ∧
      ((∀ r ∈ items, r.UniqueKeys rd) →
        itemStrings vs = (itemLeaves items).filterMap (said rd)) := by
  induction items generalizing vs with
  | nil =>
    obtain rfl := Option.some.inj h
    exact ⟨List.Subperm.refl _, fun _ => rfl⟩
  | cons r items ih =>
    obtain ⟨hr, hrest⟩ := List.forall_mem_cons.mp hitems
    obtain ⟨v, hv, h⟩ := Option.bind_eq_some_iff.mp h
    obtain ⟨ws, hws, rfl⟩ := Option.map_eq_some_iff.mp h
    obtain ⟨hsub, heq⟩ := hr v hv
    obtain ⟨hsubs, heqs⟩ := ih hws hrest
    rw [itemStrings, itemLeaves, List.filterMap_append]
    refine ⟨hsub.append hsubs, fun hunique => ?_⟩
    obtain ⟨hur, hus⟩ := List.forall_mem_cons.mp hunique
    rw [heq hur, heqs hus]

theorem strings_readMembers {members : List (Quoted × Raw)} {ms : Dict}
    (h : readMembers rd members = some ms)
    (hmembers : ∀ m ∈ members, ∀ v, m.2.read rd = some v →
      (strings v).Subperm (m.2.leaves.filterMap (said rd)) ∧
        (m.2.UniqueKeys rd → strings v = m.2.leaves.filterMap (said rd))) :
    (memberStrings ms).Subperm ((memberLeaves members).filterMap (said rd)) ∧
      ((∀ m ∈ members, m.2.UniqueKeys rd) →
        memberStrings ms = (memberLeaves members).filterMap (said rd)) ∧
      (keys ms).map some = members.map fun m => rd.text m.1.body := by
  induction members generalizing ms with
  | nil =>
    obtain rfl := Option.some.inj h
    exact ⟨List.Subperm.refl _, fun _ => rfl, rfl⟩
  | cons m members ih =>
    obtain ⟨hm, hrest⟩ := List.forall_mem_cons.mp hmembers
    obtain ⟨k, hk, h⟩ := Option.bind_eq_some_iff.mp h
    obtain ⟨v, hv, h⟩ := Option.bind_eq_some_iff.mp h
    obtain ⟨ms, hms, rfl⟩ := Option.map_eq_some_iff.mp h
    obtain ⟨hsub, heq⟩ := hm v hv
    obtain ⟨hsubs, heqs, hkeys⟩ := ih hms hrest
    have hsaid : said rd (true, m.1.body) = some k := hk
    rw [memberStrings, memberLeaves, List.filterMap_cons_some hsaid, List.filterMap_append]
    refine ⟨(List.subperm_cons _).mpr (hsub.append hsubs), fun hunique => ?_, ?_⟩
    · obtain ⟨hum, hus⟩ := List.forall_mem_cons.mp hunique
      rw [heq hum, heqs hus]
    · rw [List.map_cons, ← hkeys, hk]
      rfl

/-- What is read has the strings of the text, each at most as often; as often, if no key comes
again. -/
theorem strings_read (hatom : ∀ token v, rd.atom token = some v → strings v = []) (r : Raw) :
    ∀ v, r.read rd = some v → (strings v).Subperm (r.leaves.filterMap (said rd)) ∧
      (r.UniqueKeys rd → strings v = r.leaves.filterMap (said rd)) := by
  induction r using Raw.induct with
  | atom token =>
    intro v h
    have hnone : [(false, token)].filterMap (said rd) = [] := rfl
    rw [Raw.leaves, hnone, hatom token v h]
    exact ⟨List.Subperm.refl _, fun _ => rfl⟩
  | text q =>
    intro v h
    obtain ⟨s, hs, rfl⟩ := Option.map_eq_some_iff.mp h
    have hsaid : [(true, q.body)].filterMap (said rd) = [s] := List.filterMap_cons_some hs
    rw [Raw.leaves, hsaid]
    exact ⟨List.Subperm.refl _, fun _ => rfl⟩
  | list items ih =>
    intro v h
    obtain ⟨vs, hvs, rfl⟩ := Option.map_eq_some_iff.mp h
    obtain ⟨hsub, heq⟩ := strings_readItems hvs ih
    refine ⟨hsub, fun hunique => ?_⟩
    cases hunique with
    | list hitems => exact heq hitems
  | dict members ih =>
    intro v h
    obtain ⟨ms, hms, rfl⟩ := Option.map_eq_some_iff.mp h
    obtain ⟨hsub, heq, hkeys⟩ := strings_readMembers hms ih
    refine ⟨(memberStrings_putAll [] ms).trans hsub, fun hunique => ?_⟩
    cases hunique with
    | dict hnodup hvalues =>
      have hkeys' : (keys ms).Nodup := by
        rw [← hkeys] at hnodup
        exact List.Nodup.of_map some hnodup
      rw [strings, putAll_nil_of_nodup hkeys']
      exact heq hvalues

theorem length_filterMap_said {leaves : List Leaf} (h : leaves.all rd.reads = true) :
    (leaves.filterMap (said rd)).length = leaves.countP fun leaf => leaf.1 := by
  induction leaves with
  | nil => rfl
  | cons leaf leaves ih =>
    obtain ⟨isText, b⟩ := leaf
    rw [List.all_cons, Bool.and_eq_true] at h
    cases isText with
    | true =>
      obtain ⟨s, hs⟩ := Option.isSome_iff_exists.mp h.1
      have hsaid : said rd (true, b) = some s := hs
      rw [List.filterMap_cons_some hsaid, List.length_cons, ih h.2, List.countP_cons_of_pos rfl]
    | false =>
      have hsaid : said rd (false, b) = none := rfl
      rw [List.filterMap_cons_none hsaid, ih h.2, List.countP_cons_of_neg Bool.false_ne_true]

variable {rd' : Reading}

theorem readItems_bare {items : List Raw}
    (h : ∀ r ∈ items, r.bare.read rd' = r.read rd) :
    readItems rd' (bareItems items) = readItems rd items := by
  induction items with
  | nil => rfl
  | cons r items ih =>
    obtain ⟨hr, hitems⟩ := List.forall_mem_cons.mp h
    rw [bareItems, readItems, readItems, hr, ih hitems]

theorem readMembers_bare {members : List (Quoted × Raw)}
    (hkeys : ∀ m ∈ members, rd'.text (bare m.1.body) = rd.text m.1.body)
    (h : ∀ m ∈ members, m.2.bare.read rd' = m.2.read rd) :
    readMembers rd' (bareMembers members) = readMembers rd members := by
  induction members with
  | nil => rfl
  | cons m members ih =>
    obtain ⟨hk, hkeys⟩ := List.forall_mem_cons.mp hkeys
    obtain ⟨hm, hmembers⟩ := List.forall_mem_cons.mp h
    rw [bareMembers, readMembers, readMembers, Quoted.bare, hk, hm, ih hkeys hmembers]

theorem mem_itemLeaves {items : List Raw} {r : Raw} {leaf : Leaf} (hr : r ∈ items)
    (h : leaf ∈ r.leaves) : leaf ∈ itemLeaves items := by
  induction items with
  | nil => cases hr
  | cons r' items ih =>
    rw [itemLeaves]
    rcases List.mem_cons.mp hr with rfl | hr
    · exact List.mem_append_left _ h
    · exact List.mem_append_right _ (ih hr)

theorem mem_memberLeaves {members : List (Quoted × Raw)} {m : Quoted × Raw} {leaf : Leaf}
    (hm : m ∈ members) (h : leaf = (true, m.1.body) ∨ leaf ∈ m.2.leaves) :
    leaf ∈ memberLeaves members := by
  induction members with
  | nil => cases hm
  | cons m' members ih =>
    rw [memberLeaves]
    rcases List.mem_cons.mp hm with rfl | hm
    · rcases h with rfl | h
      · exact List.mem_cons_self
      · exact List.mem_cons_of_mem _ (List.mem_append_left _ h)
    · exact List.mem_cons_of_mem _ (List.mem_append_right _ (ih hm))

/-- Two readings that agree on every leaf. -/
theorem read_bare (hatom : rd'.atom = rd.atom) (r : Raw) :
    (∀ b, (true, b) ∈ r.leaves → rd'.text (bare b) = rd.text b) → r.bare.read rd' = r.read rd := by
  induction r using Raw.induct with
  | atom token =>
    intro _
    rw [Raw.bare, Raw.read, Raw.read, hatom]
  | text q =>
    intro h
    rw [Raw.bare, Raw.read, Raw.read, Quoted.bare, h q.body (List.mem_singleton_self _)]
  | list items ih =>
    intro h
    rw [Raw.bare, Raw.read, Raw.read, readItems_bare fun r hr =>
      ih r hr fun b hb => h b (mem_itemLeaves hr hb)]
  | dict members ih =>
    intro h
    have hkeys : ∀ m ∈ members, rd'.text (bare m.1.body) = rd.text m.1.body :=
      fun m hm => h m.1.body (mem_memberLeaves hm (Or.inl rfl))
    rw [Raw.bare, Raw.read, Raw.read, readMembers_bare hkeys fun m hm =>
      ih m hm fun b hb => h b (mem_memberLeaves hm (Or.inr hb))]

end Read

end BracketTexts
