import Mathlib.Data.List.Forall2
import Mathlib.Tactic.Common

/-! # The parameters of an RPC command

`JsonIter` walks the tokens that SPDK's parser makes of the parameters, a tree laid out flat.
A container says how many tokens lie inside it, and its end token comes on top of these.
`spdk_json_val_len` belongs to SPDK and is a parameter here. -/
namespace Ironspdk.Rpc

/-! ## Texts -/

/-- The second byte of a character of three or four bytes. -/
def secondByte (first second : UInt8) : Bool :=
  if first = 0xE0 then 0xA0 ≤ second && second ≤ 0xBF
  else if 0xE1 ≤ first ∧ first ≤ 0xEC then 0x80 ≤ second && second ≤ 0xBF
  else if first = 0xED then 0x80 ≤ second && second ≤ 0x9F
  else if 0xEE ≤ first ∧ first ≤ 0xEF then 0x80 ≤ second && second ≤ 0xBF
  else if first = 0xF0 then 0x90 ≤ second && second ≤ 0xBF
  else if 0xF1 ≤ first ∧ first ≤ 0xF3 then 0x80 ≤ second && second ≤ 0xBF
  else if first = 0xF4 then 0x80 ≤ second && second ≤ 0x8F
  else false

/-- How many bytes one replacement character stands for, where no character starts: as many as
could start one. -/
def invalidLen : List UInt8 → Nat
  | first :: second :: rest =>
    if secondByte first second then
      match rest with
      | third :: _ => if 0x80 ≤ third ∧ third ≤ 0xBF then 3 else 2
      | [] => 2
    else 1
  | _ => 1

/-- `String::from_utf8_lossy` -/
def fromUtf8Lossy : List UInt8 → List Char
  | [] => []
  | byte :: bytes =>
    match (byte :: bytes).toByteArray.utf8DecodeChar? 0 with
    | some c => c :: fromUtf8Lossy (bytes.drop (c.utf8Size - 1))
    | none => Char.ofNat 0xFFFD :: fromUtf8Lossy (bytes.drop (invalidLen (byte :: bytes) - 1))
termination_by bytes => bytes.length
decreasing_by all_goals simp only [List.length_drop, List.length_cons]; omega

def utf8 (text : String) : List UInt8 := text.toList.flatMap String.utf8EncodeChar

/-! ## Tokens -/

/-- `spdk_json_val_type` -/
inductive JsonValType
  | invalid | null | valTrue | valFalse | number | string
  | arrayBegin | arrayEnd | objectBegin | objectEnd | name
  deriving DecidableEq, Repr

/-- `spdk_json_val`: the bytes of a scalar or a name are `len` bytes from `start` on; for a
container `len` counts the tokens inside. -/
structure SpdkJsonVal where
  start : Nat
  len : Nat
  type : JsonValType
  deriving DecidableEq, Repr

def SpdkJsonVal.bytes (mem : Nat → UInt8) (val : SpdkJsonVal) : List UInt8 :=
  (List.range val.len).map fun i => mem (val.start + i)

/-- `json_val_to_string` -/
def jsonValToString (mem : Nat → UInt8) (val : SpdkJsonVal) : String :=
  String.ofList (fromUtf8Lossy (val.bytes mem))

/-- `obj` is the tokens that may be read. -/
structure JsonIter where
  obj : List SpdkJsonVal
  idx : Nat
  deriving DecidableEq, Repr

namespace JsonIter

def new (obj : List SpdkJsonVal) : JsonIter := ⟨obj, 0⟩

variable (mem : Nat → UInt8) (spdkJsonValLen : SpdkJsonVal → Nat)

/-- `JsonIter::next`; `none` is a read of some other token. -/
def next (it : JsonIter) : Option (Option ((String × String) × JsonIter)) := do
  let obj ← it.obj[0]?
  if it.idx < obj.len then
    let name ← it.obj[it.idx + 1]?
    let val ← it.obj[it.idx + 2]?
    return some ((jsonValToString mem name, jsonValToString mem val),
      { it with idx := it.idx + (1 + spdkJsonValLen val) })
  else return none

/-- What is left between the index and the end of the object. -/
def left (it : JsonIter) : Nat := (it.obj[0]?.map (·.len)).getD 0 - it.idx

variable {mem spdkJsonValLen}

/-- What a member that was returned shows of the tokens. -/
theorem next_some {it it' : JsonIter} {item : String × String}
    (h : it.next mem spdkJsonValLen = some (some (item, it'))) :
    ∃ obj name val, it.obj[0]? = some obj ∧ it.idx < obj.len ∧ it.obj[it.idx + 1]? = some name ∧
      it.obj[it.idx + 2]? = some val ∧ item = (jsonValToString mem name, jsonValToString mem val) ∧
      it' = { it with idx := it.idx + (1 + spdkJsonValLen val) } := by
  obtain ⟨obj, hobj, h⟩ := Option.bind_eq_some_iff.mp h
  split at h
  · rename_i hlt
    obtain ⟨name, hname, h⟩ := Option.bind_eq_some_iff.mp h
    obtain ⟨val, hval, h⟩ := Option.bind_eq_some_iff.mp h
    cases h
    exact ⟨obj, name, val, hobj, hlt, hname, hval, rfl, rfl⟩
  · cases h

theorem next_left {it it' : JsonIter} {item : String × String}
    (h : it.next mem spdkJsonValLen = some (some (item, it'))) : it'.left < it.left := by
  obtain ⟨obj, name, val, hobj, hlt, _, _, _, rfl⟩ := next_some h
  simp only [left, hobj, Option.map_some, Option.getD_some]
  omega

variable (mem spdkJsonValLen)

/-- The loop of `collect`. -/
def collect (it : JsonIter) : Option (List (String × String)) :=
  match _h : it.next mem spdkJsonValLen with
  | none => none
  | some none => some []
  | some (some (item, it')) => (collect it').map (item :: ·)
termination_by it.left
decreasing_by exact next_left (by assumption)

variable {mem spdkJsonValLen}

theorem collect_end {it : JsonIter} (h : it.next mem spdkJsonValLen = some none) :
    it.collect mem spdkJsonValLen = some [] := by
  rw [collect]
  split
  · rename_i hn
    cases h.symm.trans hn
  · rfl
  · rename_i hn
    cases h.symm.trans hn

theorem collect_step {it it' : JsonIter} {item : String × String}
    (h : it.next mem spdkJsonValLen = some (some (item, it'))) :
    it.collect mem spdkJsonValLen = (it'.collect mem spdkJsonValLen).map (item :: ·) := by
  rw [collect]
  split
  · rename_i hn
    cases h.symm.trans hn
  · rename_i hn
    cases h.symm.trans hn
  · rename_i hn
    cases h.symm.trans hn
    rfl

end JsonIter

/-! ## What the parser makes -/

inductive Json
  | scalar (text : String)
  | array (items : List Json)
  | object (members : List (String × Json))

variable (mem : Nat → UInt8)

def SpdkJsonVal.Scalar (val : SpdkJsonVal) (text : String) : Prop :=
  val.type ∈ [.null, .valTrue, .valFalse, .number, .string] ∧ val.bytes mem = utf8 text

mutual

/-- `vals` are the tokens of a value. -/
def Json.Flat : Json → List SpdkJsonVal → Prop
  | .scalar text, vals => ∃ val, vals = [val] ∧ val.Scalar mem text
  | .array items, vals => ∃ first inner last, vals = first :: inner ++ [last] ∧
      first.type = .arrayBegin ∧ first.len = inner.length ∧ last.type = .arrayEnd ∧
      flatItems items inner
  | .object members, vals => ∃ first inner last, vals = first :: inner ++ [last] ∧
      first.type = .objectBegin ∧ first.len = inner.length ∧ last.type = .objectEnd ∧
      flatMembers members inner

def flatItems : List Json → List SpdkJsonVal → Prop
  | [], vals => vals = []
  | item :: items, vals => ∃ v vs, vals = v ++ vs ∧ item.Flat v ∧ flatItems items vs

def flatMembers : List (String × Json) → List SpdkJsonVal → Prop
  | [], vals => vals = []
  | (name, value) :: members, vals => ∃ n v vs, vals = n :: (v ++ vs) ∧
      n.type = .name ∧ n.bytes mem = utf8 name ∧ value.Flat v ∧ flatMembers members vs

end

/-! ## The members of an object -/

theorem utf8EncodeChar_cons (c : Char) : ∃ byte bytes,
    String.utf8EncodeChar c = byte :: bytes ∧ bytes.length = c.utf8Size - 1 := by
  have hlen := String.length_utf8EncodeChar c
  cases hc : String.utf8EncodeChar c with
  | nil =>
    have := c.utf8Size_pos
    rw [hc, List.length_nil] at hlen
    omega
  | cons byte bytes =>
    rw [hc, List.length_cons] at hlen
    exact ⟨byte, bytes, rfl, by omega⟩

/-- Text that is UTF-8 goes through as it is. -/
theorem fromUtf8Lossy_utf8 (cs : List Char) :
    fromUtf8Lossy (cs.flatMap String.utf8EncodeChar) = cs := by
  induction cs with
  | nil => rw [List.flatMap_nil, fromUtf8Lossy]
  | cons c cs ih =>
    obtain ⟨byte, bytes, hc, hlen⟩ := utf8EncodeChar_cons c
    have hdecode : ((byte :: bytes) ++ cs.flatMap String.utf8EncodeChar).toByteArray.utf8DecodeChar?
        0 = some c := by
      rw [← hc, List.toByteArray_append]
      exact ByteArray.utf8DecodeChar?_utf8EncodeChar_append
    rw [List.flatMap_cons, hc, List.cons_append, fromUtf8Lossy]
    rw [List.cons_append] at hdecode
    simp only [hdecode]
    rw [← hlen, List.drop_left, ih]

variable {mem}

theorem jsonValToString_of_bytes {val : SpdkJsonVal} {text : String}
    (h : val.bytes mem = utf8 text) : jsonValToString mem val = text := by
  rw [jsonValToString, h, utf8, fromUtf8Lossy_utf8, String.ofList_toList]

/-- `spdk_json_val_len` -/
structure IsJsonValLen (spdkJsonValLen : SpdkJsonVal → Nat) : Prop where
  container : ∀ val, val.type = .arrayBegin ∨ val.type = .objectBegin →
    spdkJsonValLen val = val.len + 2
  scalar : ∀ val, val.type ≠ .arrayBegin → val.type ≠ .objectBegin → spdkJsonValLen val = 1

variable {spdkJsonValLen : SpdkJsonVal → Nat}

/-- The first token of a value knows how many there are. -/
theorem Json.Flat.length_eq (hlen : IsJsonValLen spdkJsonValLen) {value : Json}
    {vals : List SpdkJsonVal} (h : value.Flat mem vals) :
    ∃ first rest, vals = first :: rest ∧ spdkJsonValLen first = vals.length := by
  cases value with
  | scalar text =>
    obtain ⟨val, rfl, htype, _⟩ := h
    refine ⟨val, [], rfl, hlen.scalar val ?_ ?_⟩
    · intro he
      simp [he] at htype
    · intro he
      simp [he] at htype
  | array items =>
    obtain ⟨first, inner, last, rfl, htype, hcount, _⟩ := h
    refine ⟨first, inner ++ [last], rfl, ?_⟩
    rw [hlen.container first (Or.inl htype), hcount]
    simp
  | object members =>
    obtain ⟨first, inner, last, rfl, htype, hcount, _⟩ := h
    refine ⟨first, inner ++ [last], rfl, ?_⟩
    rw [hlen.container first (Or.inr htype), hcount]
    simp

/-- A pair that is the name of a member and, if its value is a scalar, the text of it. -/
def Shows (pair : String × String) (member : String × Json) : Prop :=
  pair.1 = member.1 ∧ ∀ text, member.2 = .scalar text → pair.2 = text

/-- The iterator between two members: `before` lies behind it. -/
theorem collect_from (hlen : IsJsonValLen spdkJsonValLen) {first last : SpdkJsonVal}
    {members : List (String × Json)} {before after : List SpdkJsonVal}
    (hcount : first.len = (before ++ after).length) (h : flatMembers mem members after) :
    ∃ pairs, JsonIter.collect mem spdkJsonValLen
        ⟨first :: (before ++ after) ++ [last], before.length⟩ = some pairs ∧
      List.Forall₂ Shows pairs members := by
  induction members generalizing before after with
  | nil =>
    cases h
    refine ⟨[], JsonIter.collect_end ?_, .nil⟩
    simp [JsonIter.next, hcount]
  | cons member members ih =>
    obtain ⟨name, value⟩ := member
    obtain ⟨n, v, vs, rfl, _, hname, hvalue, hrest⟩ := h
    obtain ⟨val, rest, rfl, hskip⟩ := hvalue.length_eq hlen
    -- the tokens of the member are behind the iterator for the rest
    have hvals : before ++ n :: (val :: rest ++ vs) = (before ++ n :: val :: rest) ++ vs := by
      simp
    obtain ⟨pairs, hpairs, hshows⟩ := ih (hcount.trans (congrArg List.length hvals)) hrest
    have hnext : JsonIter.next mem spdkJsonValLen
        ⟨first :: (before ++ n :: (val :: rest ++ vs)) ++ [last], before.length⟩ =
          some (some ((jsonValToString mem n, jsonValToString mem val),
            ⟨first :: (before ++ n :: (val :: rest ++ vs)) ++ [last],
              (before ++ n :: val :: rest).length⟩)) := by
      have hlt : before.length < first.len := by
        rw [hcount]
        simp
      have hn : (first :: (before ++ n :: (val :: rest ++ vs)) ++ [last])[before.length + 1]? =
          some n := by simp
      have hv : (first :: (before ++ n :: (val :: rest ++ vs)) ++ [last])[before.length + 2]? =
          some val := by simp
      simp only [JsonIter.next, hn, hv]
      simp [hlt, hskip]
      omega
    refine ⟨(jsonValToString mem n, jsonValToString mem val) :: pairs, ?_, ?_⟩
    · rw [JsonIter.collect_step hnext, hvals, hpairs]
      rfl
    · refine .cons ⟨jsonValToString_of_bytes hname, fun text htext => ?_⟩ hshows
      cases htext
      obtain ⟨val', hval', _, htext⟩ := hvalue
      cases hval'
      exact jsonValToString_of_bytes htext

/-- **The iterator yields the members.** For the tokens of every object, with values of any
kind nested to any depth: the iterator comes to an end, every token it reads is one of the
object, and it returns a pair for each member, in order, with the name of the member and, for
a scalar, the text of it. -/
theorem collect_members (hlen : IsJsonValLen spdkJsonValLen) {members : List (String × Json)}
    {vals : List SpdkJsonVal} (h : (Json.object members).Flat mem vals) :
    ∃ pairs, (JsonIter.new vals).collect mem spdkJsonValLen = some pairs ∧
      List.Forall₂ Shows pairs members := by
  obtain ⟨first, inner, last, rfl, _, hcount, _, hmembers⟩ := h
  have hcount' : first.len = ([] ++ inner).length := hcount
  exact collect_from hlen hcount' hmembers

/-- `{"a": {"b": 1}, "c": "xy"}` -/
def nestedText : List Char := "\x7b\"a\": \x7b\"b\": 1\x7d, \"c\": \"xy\"\x7d".toList

def nestedMem (i : Nat) : UInt8 := ((nestedText[i]?).map (·.toNat.toUInt8)).getD 0

def nestedVals : List SpdkJsonVal :=
  [⟨0, 7, .objectBegin⟩, ⟨2, 1, .name⟩, ⟨6, 2, .objectBegin⟩, ⟨8, 1, .name⟩, ⟨12, 1, .number⟩,
    ⟨13, 0, .objectEnd⟩, ⟨17, 1, .name⟩, ⟨22, 2, .string⟩, ⟨25, 0, .objectEnd⟩]

/-- The names `a` and `c` are returned, `b` is not. -/
theorem collect_members_nested : ∃ pairs,
    (JsonIter.new nestedVals).collect nestedMem (fun val =>
      if val.type = .arrayBegin ∨ val.type = .objectBegin then val.len + 2 else 1) = some pairs ∧
    pairs.map Prod.fst = ["a", "c"] := by
  have hlen : IsJsonValLen fun val =>
      if val.type = .arrayBegin ∨ val.type = .objectBegin then val.len + 2 else 1 :=
    ⟨fun val h => if_pos h, fun val ha ho => if_neg (by simp [ha, ho])⟩
  have hinner : Json.Flat nestedMem (.object [("b", .scalar "1")])
      [⟨6, 2, .objectBegin⟩, ⟨8, 1, .name⟩, ⟨12, 1, .number⟩, ⟨13, 0, .objectEnd⟩] := by
    refine ⟨_, [⟨8, 1, .name⟩, ⟨12, 1, .number⟩], _, rfl, rfl, rfl, rfl, ?_⟩
    exact ⟨_, [⟨12, 1, .number⟩], [], rfl, rfl, by decide, ⟨_, rfl, by decide, by decide⟩, rfl⟩
  have hflat : Json.Flat nestedMem
      (.object [("a", .object [("b", .scalar "1")]), ("c", .scalar "xy")]) nestedVals := by
    refine ⟨⟨0, 7, .objectBegin⟩, nestedVals.tail.dropLast, _, rfl, rfl, rfl, rfl, ?_⟩
    refine ⟨_, _, [⟨17, 1, .name⟩, ⟨22, 2, .string⟩], rfl, rfl, by decide, hinner, ?_⟩
    exact ⟨_, [⟨22, 2, .string⟩], [], rfl, rfl, by decide, ⟨_, rfl, by decide, by decide⟩, rfl⟩
  obtain ⟨pairs, hpairs, hshows⟩ := collect_members hlen hflat
  refine ⟨pairs, hpairs, ?_⟩
  cases hshows with
  | cons ha hrest =>
    cases hrest with
    | cons hc hnil =>
      cases hnil
      rw [List.map_cons, List.map_cons, ha.1, hc.1, List.map_nil]

end Ironspdk.Rpc
