import SIPMediaGW.BodyEscapes
import SIPMediaGW.FieldMap

/-! # The document of a body

What `json.loads` returns is the document with the last value of each key. A predicate on strings
and one on floats are lifted to a document, and to the values read from it. -/
namespace BodyDocuments

open BodyEscapes
open BodyJson
open CodePoints
open PythonJson

mutual

/-- All the strings and all the floats of a document are such. -/
def every (text : Text → Bool) (float : PyFloat → Bool) : Doc → Bool
  | .str s => text s
  | .float x => float x
  | .arr xs => everyItem text float xs
  | .obj members => everyMember text float members
  | _ => true

def everyItem (text : Text → Bool) (float : PyFloat → Bool) : List Doc → Bool
  | [] => true
  | v :: xs => every text float v && everyItem text float xs

def everyMember (text : Text → Bool) (float : PyFloat → Bool) : List (Text × Doc) → Bool
  | [] => true
  | (key, v) :: members => (text key && every text float v) && everyMember text float members

end

mutual

/-- A `dict` keeps the last value of a key. -/
def collapse : Doc → Doc
  | .arr xs => .arr (collapseItems xs)
  | .obj members => .obj (FieldMap.putAll [] (collapseMembers members))
  | v => v

def collapseItems : List Doc → List Doc
  | [] => []
  | v :: xs => collapse v :: collapseItems xs

def collapseMembers : List (Text × Doc) → List (Text × Doc)
  | [] => []
  | (key, v) :: members => (key, collapse v) :: collapseMembers members

end

/-- No character is a surrogate: the replacement character stands for it. -/
def character (n : ℕ) : Char := if n.isValidChar then Char.ofNat n else Char.ofNat 0xFFFD

def asString (s : Text) : String := String.ofList (s.map character)

mutual

def toJson : Doc → Json
  | .null => .null
  | .bool b => .bool b
  | .int n => .int n
  | .float x => .float x
  | .str s => .str (asString s)
  | .arr xs => .arr (itemsToJson xs)
  | .obj members => .obj (membersToJson members)

def itemsToJson : List Doc → List Json
  | [] => []
  | v :: xs => toJson v :: itemsToJson xs

def membersToJson : List (Text × Doc) → Dict
  | [] => []
  | (key, v) :: members => (asString key, toJson v) :: membersToJson members

end

mutual

def everyJson (text : String → Bool) (float : PyFloat → Bool) : Json → Bool
  | .str s => text s
  | .float x => float x
  | .arr xs => everyJsonItem text float xs
  | .obj d => everyJsonMember text float d
  | _ => true

def everyJsonItem (text : String → Bool) (float : PyFloat → Bool) : List Json → Bool
  | [] => true
  | v :: xs => everyJson text float v && everyJsonItem text float xs

def everyJsonMember (text : String → Bool) (float : PyFloat → Bool) : Dict → Bool
  | [] => true
  | (key, v) :: d => (text key && everyJson text float v) && everyJsonMember text float d

end

section Documents

variable {text text' : Text → Bool} {float float' : PyFloat → Bool}

mutual

theorem every_and : (v : Doc) →
    every (fun s => text s && text' s) (fun x => float x && float' x) v =
      (every text float v && every text' float' v)
  | .null | .bool _ | .int _ => rfl
  | .float _ | .str _ => rfl
  | .arr xs => by rw [every, every, every, everyItem_and xs]
  | .obj members => by rw [every, every, every, everyMember_and members]

theorem everyItem_and : (xs : List Doc) →
    everyItem (fun s => text s && text' s) (fun x => float x && float' x) xs =
      (everyItem text float xs && everyItem text' float' xs)
  | [] => rfl
  | v :: xs => by
    rw [everyItem, everyItem, everyItem, every_and v, everyItem_and xs]
    ac_rfl

theorem everyMember_and : (members : List (Text × Doc)) →
    everyMember (fun s => text s && text' s) (fun x => float x && float' x) members =
      (everyMember text float members && everyMember text' float' members)
  | [] => rfl
  | (key, v) :: members => by
    rw [everyMember, everyMember, everyMember, every_and v, everyMember_and members]
    ac_rfl

end

def noNul (s : Text) : Bool := decide (0 ∉ s)

def anyFloat (_ : PyFloat) : Bool := true

mutual

theorem every_noNul : (v : Doc) → every noNul anyFloat v = ! anyNul (strings v)
  | .null | .bool _ | .int _ => rfl
  | .float _ => rfl
  | .str s => by simp [every, strings, anyNul, noNul]
  | .arr xs => by rw [every, strings, everyItem_noNul xs]
  | .obj members => by rw [every, strings, everyMember_noNul members]

theorem everyItem_noNul : (xs : List Doc) →
    everyItem noNul anyFloat xs = ! anyNul (itemStrings xs)
  | [] => rfl
  | v :: xs => by
    rw [everyItem, itemStrings, every_noNul v, everyItem_noNul xs, anyNul_append, Bool.not_or]

theorem everyMember_noNul : (members : List (Text × Doc)) →
    everyMember noNul anyFloat members = ! anyNul (memberStrings members)
  | [] => rfl
  | (key, v) :: members => by
    rw [everyMember, memberStrings, every_noNul v, everyMember_noNul members, anyNul_append,
      Bool.not_or]
    simp [anyNul, noNul]

end

theorem everyMember_iff (members : List (Text × Doc)) : everyMember text float members = true ↔
    ∀ m ∈ members, text m.1 = true ∧ every text float m.2 = true := by
  induction members with
  | nil => simp [everyMember]
  | cons m members ih =>
    rw [everyMember, Bool.and_eq_true, Bool.and_eq_true, ih, List.forall_mem_cons]

mutual

theorem every_collapse : (v : Doc) → every text float v = true →
    every text float (collapse v) = true
  | .null, h | .bool _, h | .int _, h => h
  | .float _, h | .str _, h => h
  | .arr xs, h => everyItem_collapse xs h
  | .obj members, h => by
    have hall := (everyMember_iff _).mp (everyMember_collapse members h)
    exact (everyMember_iff _).mpr fun m hm =>
      (FieldMap.mem_putAll hm).elim (hall m) fun hnil => nomatch hnil

theorem everyItem_collapse : (xs : List Doc) → everyItem text float xs = true →
    everyItem text float (collapseItems xs) = true
  | [], _ => rfl
  | v :: xs, h => by
    obtain ⟨hv, hxs⟩ := Bool.and_eq_true_iff.mp h
    exact Bool.and_eq_true_iff.mpr ⟨every_collapse v hv, everyItem_collapse xs hxs⟩

theorem everyMember_collapse : (members : List (Text × Doc)) →
    everyMember text float members = true →
    everyMember text float (collapseMembers members) = true
  | [], _ => rfl
  | (key, v) :: members, h => by
    obtain ⟨hm, hmembers⟩ := Bool.and_eq_true_iff.mp h
    obtain ⟨hkey, hv⟩ := Bool.and_eq_true_iff.mp hm
    exact Bool.and_eq_true_iff.mpr
      ⟨Bool.and_eq_true_iff.mpr ⟨hkey, every_collapse v hv⟩, everyMember_collapse members hmembers⟩

end

mutual

theorem everyJson_toJson {string : String → Bool}
    (htext : ∀ s, text s = true → string (asString s) = true) :
    (v : Doc) → every text float v = true → everyJson string float (toJson v) = true
  | .null, h | .bool _, h | .int _, h => h
  | .float _, h => h
  | .str s, h => htext s h
  | .arr xs, h => everyJsonItem_toJson htext xs h
  | .obj members, h => everyJsonMember_toJson htext members h

theorem everyJsonItem_toJson {string : String → Bool}
    (htext : ∀ s, text s = true → string (asString s) = true) :
    (xs : List Doc) → everyItem text float xs = true →
      everyJsonItem string float (itemsToJson xs) = true
  | [], _ => rfl
  | v :: xs, h => by
    obtain ⟨hv, hxs⟩ := Bool.and_eq_true_iff.mp h
    exact Bool.and_eq_true_iff.mpr
      ⟨everyJson_toJson htext v hv, everyJsonItem_toJson htext xs hxs⟩

theorem everyJsonMember_toJson {string : String → Bool}
    (htext : ∀ s, text s = true → string (asString s) = true) :
    (members : List (Text × Doc)) → everyMember text float members = true →
      everyJsonMember string float (membersToJson members) = true
  | [], _ => rfl
  | (key, v) :: members, h => by
    obtain ⟨hm, hmembers⟩ := Bool.and_eq_true_iff.mp h
    obtain ⟨hkey, hv⟩ := Bool.and_eq_true_iff.mp hm
    exact Bool.and_eq_true_iff.mpr
      ⟨Bool.and_eq_true_iff.mpr ⟨htext key hkey, everyJson_toJson htext v hv⟩,
        everyJsonMember_toJson htext members hmembers⟩

end

def nulFree (s : String) : Bool := decide (Char.ofNat 0 ∉ s.toList)

theorem nulFree_iff {s : String} : nulFree s = true ↔ Char.ofNat 0 ∉ s.toList :=
  decide_eq_true_iff

theorem character_ne_zero {n : ℕ} (h : n ≠ 0) : character n ≠ Char.ofNat 0 := by
  unfold character
  split
  · next hvalid =>
    intro heq
    have hnat : (Char.ofNat n).toNat = 0 := congrArg Char.toNat heq
    rw [Char.ofNat, dif_pos hvalid] at hnat
    exact h hnat
  · decide

theorem nulFree_asString {s : Text} (h : noNul s = true) : nulFree (asString s) = true := by
  rw [noNul, decide_eq_true_eq] at h
  rw [nulFree_iff, asString, String.toList_ofList, List.mem_map]
  rintro ⟨n, hn, heq⟩
  exact character_ne_zero (fun hzero => h (hzero ▸ hn)) heq

end Documents

section Fields

variable {text : String → Bool} {float : PyFloat → Bool} {v : Json} {d : Dict}

theorem everyJsonMember_iff : everyJsonMember text float d = true ↔
    ∀ m ∈ d, text m.1 = true ∧ everyJson text float m.2 = true := by
  induction d with
  | nil => simp [everyJsonMember]
  | cons m d ih =>
    rw [everyJsonMember, Bool.and_eq_true, Bool.and_eq_true, ih, List.forall_mem_cons]

theorem everyJsonItem_iff {xs : List Json} : everyJsonItem text float xs = true ↔
    ∀ v ∈ xs, everyJson text float v = true := by
  induction xs with
  | nil => simp [everyJsonItem]
  | cons v xs ih => rw [everyJsonItem, Bool.and_eq_true, ih, List.forall_mem_cons]

theorem everyJson_field (h : everyJsonMember text float d = true) (key : String) :
    everyJson text float (field d key) = true := by
  unfold field
  cases hlookup : d.lookup key with
  | none => rfl
  | some v =>
    obtain ⟨before, after, rfl, -⟩ := List.lookup_eq_some_iff.mp hlookup
    exact (everyJsonMember_iff.mp h (key, v) (by simp)).2

end Fields

end BodyDocuments
