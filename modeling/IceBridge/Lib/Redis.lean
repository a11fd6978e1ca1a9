import IceBridge.Lib.Keyspace
import IceBridge.Lib.Text
import Mathlib.Data.List.Infix
import Mathlib.Data.List.Perm.Basic

/-! The hashes of a redis server, the commands on them, and how the C client cuts the text of a
command into words. -/

namespace Redis

abbrev Hash := Text → Option Text

abbrev Db := Keyspace Text Hash

/-! ## The text of a command -/

/-- `redisCommand` with the text alone, which a NUL ends. A conversion would take an argument
that is not there; a `%` at the end is none. -/
def args (text : Text) : Option (List Text) :=
  let text := text.takeWhile (· ≠ '\x00')
  if '%' ∈ text.dropLast then none else some (Text.words ' ' text)

def Plain (text : Text) : Prop := ∀ c ∈ text, c ≠ '%' ∧ c ≠ '\x00'

def IsClean (text : Text) : Prop := ' ' ∉ text ∧ Plain text

def IsWord (text : Text) : Prop := text ≠ [] ∧ IsClean text

instance (text : Text) : Decidable (Plain text) := List.decidableBAll _ text

instance (text : Text) : Decidable (IsClean text) := inferInstanceAs (Decidable (_ ∧ _))

instance (text : Text) : Decidable (IsWord text) := inferInstanceAs (Decidable (_ ∧ _))

theorem Plain.append {a b : Text} (ha : Plain a) (hb : Plain b) : Plain (a ++ b) := by
  intro c hc
  rcases List.mem_append.mp hc with hc | hc
  · exact ha c hc
  · exact hb c hc

theorem Plain.cons {c : Char} {text : Text} (hc : c ≠ '%' ∧ c ≠ '\x00') (htext : Plain text) :
    Plain (c :: text) := by
  intro d hd
  rcases List.mem_cons.mp hd with rfl | hd
  · exact hc
  · exact htext d hd

theorem args_of_plain {text : Text} (h : Plain text) : args text = some (Text.words ' ' text) := by
  have hall : text.takeWhile (· ≠ '\x00') = text := by
    apply List.takeWhile_eq_self_iff.mpr
    intro c hc
    simpa using (h c hc).2
  have hnone : '%' ∉ text.dropLast := fun hc =>
    (h _ ((List.dropLast_sublist text).subset hc)).1 rfl
  rw [args, hall]
  exact if_neg hnone

theorem words_of_isWord {text : Text} (h : IsWord text) : Text.words ' ' text = [text] := by
  rw [Text.words, List.splitOn_eq_singleton h.2.1]
  exact List.filter_cons_of_pos (by simpa using h.1)

theorem words_append (a b : Text) :
    Text.words ' ' (a ++ ' ' :: b) = Text.words ' ' a ++ Text.words ' ' b := by
  unfold Text.words
  rw [List.splitOn_append_cons_self, List.filter_append]

theorem plain_pair {a b : Text} (ha : IsWord a) (hb : IsWord b) : Plain (a ++ ' ' :: b) :=
  ha.2.2.append (.cons (by decide) hb.2.2)

theorem words_pair {a b : Text} (ha : IsWord a) (hb : IsWord b) :
    Text.words ' ' (a ++ ' ' :: b) = [a, b] := by
  rw [words_append, words_of_isWord ha, words_of_isWord hb]
  rfl

theorem args_pair {a b : Text} (ha : IsWord a) (hb : IsWord b) :
    args (a ++ ' ' :: b) = some [a, b] := by
  rw [args_of_plain (plain_pair ha hb), words_pair ha hb]

theorem args_pair_blank {a b : Text} (ha : IsWord a) (hb : IsWord b) :
    args (a ++ ' ' :: b ++ [' ']) = some [a, b] := by
  rw [args_of_plain ((plain_pair ha hb).append (by decide)), words_append, words_pair ha hb]
  rfl

/-- A command that is written with its cells: a label and a value each, with blanks between. -/
def line (head : Text) (cells : List (String × Text)) : Text :=
  head ++ cells.flatMap fun c => ' ' :: (c.1.toList ++ ' ' :: c.2)

def field (label : String) : Text := label.toList.filter (· ≠ ' ')

def IsLabel (label : String) : Prop :=
  Plain label.toList ∧ Text.words ' ' label.toList = [field label]

instance (label : String) : Decidable (IsLabel label) := inferInstanceAs (Decidable (_ ∧ _))

theorem line_cons (head : Text) (c : String × Text) (cells : List (String × Text)) :
    line head (c :: cells) = line (head ++ ' ' :: (c.1.toList ++ ' ' :: c.2)) cells := by
  simp [line]

theorem plain_line {head : Text} {cells : List (String × Text)} (hhead : Plain head)
    (hcells : ∀ c ∈ cells, IsLabel c.1 ∧ IsWord c.2) : Plain (line head cells) := by
  induction cells generalizing head with
  | nil => simpa [line] using hhead
  | cons c cells ih =>
    obtain ⟨hlabel, hvalue⟩ := hcells c List.mem_cons_self
    rw [line_cons]
    apply ih _ fun d hd => hcells d (List.mem_cons_of_mem c hd)
    exact hhead.append (.cons (by decide) (hlabel.1.append (.cons (by decide) hvalue.2.2)))

theorem words_line {head : Text} {cells : List (String × Text)}
    (hcells : ∀ c ∈ cells, IsLabel c.1 ∧ IsWord c.2) :
    Text.words ' ' (line head cells) =
      Text.words ' ' head ++ (cells.map fun c => (field c.1, c.2)).flatMap fun c => [c.1, c.2] := by
  induction cells generalizing head with
  | nil => simp [line]
  | cons c cells ih =>
    obtain ⟨hlabel, hvalue⟩ := hcells c List.mem_cons_self
    rw [line_cons, ih fun d hd => hcells d (List.mem_cons_of_mem c hd), words_append, words_append,
      words_of_isWord hvalue, hlabel.2, List.map_cons, List.flatMap_cons, List.append_assoc]
    rfl

def nameLine (head : Text) (names : List String) : Text :=
  head ++ names.flatMap fun name => ' ' :: name.toList

theorem nameLine_cons (head : Text) (name : String) (names : List String) :
    nameLine head (name :: names) = nameLine (head ++ ' ' :: name.toList) names := by
  simp [nameLine]

theorem plain_nameLine {head : Text} {names : List String} (hhead : Plain head)
    (hnames : ∀ name ∈ names, IsLabel name) : Plain (nameLine head names) := by
  induction names generalizing head with
  | nil => simpa [nameLine] using hhead
  | cons name names ih =>
    rw [nameLine_cons]
    apply ih _ fun n hn => hnames n (List.mem_cons_of_mem name hn)
    exact hhead.append (.cons (by decide) (hnames name List.mem_cons_self).1)

theorem words_nameLine {head : Text} {names : List String}
    (hnames : ∀ name ∈ names, IsLabel name) :
    Text.words ' ' (nameLine head names) = Text.words ' ' head ++ names.map field := by
  induction names generalizing head with
  | nil => simp [nameLine]
  | cons name names ih =>
    rw [nameLine_cons, ih fun n hn => hnames n (List.mem_cons_of_mem name hn), words_append,
      (hnames name List.mem_cons_self).2, List.append_assoc]
    rfl

/-! ## Commands -/

inductive Command
  | hmset (key : Text) (cells : List (Text × Text))
  | del (keys : List Text)
  | hmget (key : Text) (fields : List Text)
  | keys (pattern : Text)
  | error

def pairs : List Text → Option (List (Text × Text))
  | [] => some []
  | [_] => none
  | field :: value :: rest => (pairs rest).map ((field, value) :: ·)

/-- A name in any case. `HSET` takes one field, and a wrong number of arguments is an error. -/
def parse : List Text → Command
  | name :: key :: rest =>
    let name := name.map Char.toUpper
    if name = "HMSET".toList then
      match pairs rest with
      | some (c :: cells) => .hmset key (c :: cells)
      | _ => .error
    else if name = "HSET".toList then
      match rest with
      | [field, value] => .hmset key [(field, value)]
      | _ => .error
    else if name = "DEL".toList then .del (key :: rest)
    else if name = "HMGET".toList ∧ rest ≠ [] then .hmget key rest
    else if name = "KEYS".toList ∧ rest = [] then .keys key
    else .error
  | _ => .error

def merge (h : Hash) (cells : List (Text × Text)) : Hash :=
  cells.foldl (fun h c => Function.update h c.1 (some c.2)) h

def run (db : Db) : Command → Db
  | .hmset key cells => db.set key (merge ((db.find key).getD fun _ => none) cells)
  | .del keys => keys.foldl Keyspace.del db
  | _ => db

def write (db : Db) (text : Text) : Option Db := (args text).map fun words => run db (parse words)

def hmget (db : Db) (text : Text) : Option (List (Option Text)) :=
  (args text).bind fun words =>
    match parse words with
    | .hmget key fields => some (fields.map fun field => (db.find key).bind fun h => h field)
    | _ => none

/-- `*` and `?`; nothing else is special in the patterns here. -/
def glob : Text → Text → Bool
  | [], text => text.isEmpty
  | '*' :: pattern, text => text.tails.any (glob pattern)
  | _ :: _, [] => false
  | c :: pattern, d :: text => (c = '?' || c = d) && glob pattern text

/-- The reply to `KEYS`, which may come in any order. -/
def keys (db : Db) (text : Text) (order : List Text) : Option (List Text) :=
  (args text).bind fun words =>
    match parse words with
    | .keys pattern => if order.Perm (db.keys.filter (glob pattern)) then some order else none
    | _ => none

theorem pairs_flatMap (cells : List (Text × Text)) :
    pairs (cells.flatMap fun c => [c.1, c.2]) = some cells := by
  induction cells with
  | nil => rfl
  | cons c cells ih =>
    show (pairs (cells.flatMap fun c => [c.1, c.2])).map (c :: ·) = _
    rw [ih]
    rfl

theorem merge_cons (h : Hash) (c : Text × Text) (cells : List (Text × Text)) :
    merge h (c :: cells) = merge (Function.update h c.1 (some c.2)) cells := rfl

theorem merge_of_notMem {cells : List (Text × Text)} (h : Hash) {field : Text}
    (hfield : field ∉ cells.map Prod.fst) : merge h cells field = h field := by
  induction cells generalizing h with
  | nil => rfl
  | cons c cells ih =>
    rw [List.map_cons, List.mem_cons, not_or] at hfield
    rw [merge_cons, ih _ hfield.2, Function.update_of_ne hfield.1]

theorem merge_of_mem {cells : List (Text × Text)} (h : Hash) (hnodup : (cells.map Prod.fst).Nodup)
    {c : Text × Text} (hc : c ∈ cells) : merge h cells c.1 = some c.2 := by
  induction cells generalizing h with
  | nil => exact absurd hc List.not_mem_nil
  | cons d cells ih =>
    rw [List.map_cons, List.nodup_cons] at hnodup
    rw [merge_cons]
    rcases List.mem_cons.mp hc with rfl | hc
    · rw [merge_of_notMem _ hnodup.1, Function.update_self]
    · exact ih _ hnodup.2 hc

theorem parse_hmset {key : Text} {cells : List (Text × Text)} (hne : cells ≠ []) :
    parse ("HMSET".toList :: key :: cells.flatMap fun c => [c.1, c.2]) = .hmset key cells := by
  unfold parse
  simp only [pairs_flatMap]
  cases cells with
  | nil => exact absurd rfl hne
  | cons c cells => rfl

theorem parse_hmget {key : Text} {names : List Text} (hne : names ≠ []) :
    parse ("HMGET".toList :: key :: names) = .hmget key names := by
  unfold parse
  cases names with
  | nil => exact absurd rfl hne
  | cons name names => rfl

theorem write_hmset (db : Db) {key : Text} (hkey : IsWord key) {cells : List (String × Text)}
    (hne : cells ≠ []) (hcells : ∀ c ∈ cells, IsLabel c.1 ∧ IsWord c.2) :
    write db (line ("HMSET".toList ++ ' ' :: key) cells) =
      some (db.set key (merge ((db.find key).getD fun _ => none)
        (cells.map fun c => (field c.1, c.2)))) := by
  have hname : IsWord "HMSET".toList := by decide
  rw [write, args_of_plain (plain_line (plain_pair hname hkey) hcells), words_line hcells,
    words_pair hname hkey]
  have hcellsNe : (cells.map fun c => (field c.1, c.2)) ≠ [] := by simpa using hne
  have hparse : parse ("HMSET".toList :: key ::
      (cells.map fun c => (field c.1, c.2)).flatMap fun c => [c.1, c.2]) =
        .hmset key (cells.map fun c => (field c.1, c.2)) := parse_hmset hcellsNe
  exact congrArg (fun c => some (run db c)) hparse

theorem write_hset (db : Db) {key : Text} (hkey : IsWord key) {label : String} {value : Text}
    (hcell : IsLabel label ∧ IsWord value) :
    write db (line ("HSET".toList ++ ' ' :: key) [(label, value)]) =
      some (db.set key (merge ((db.find key).getD fun _ => none) [(field label, value)])) := by
  have hname : IsWord "HSET".toList := by decide
  have hcells : ∀ c ∈ [(label, value)], IsLabel c.1 ∧ IsWord c.2 := by simpa using hcell
  rw [write, args_of_plain (plain_line (plain_pair hname hkey) hcells), words_line hcells,
    words_pair hname hkey]
  rfl

theorem write_del (db : Db) {key : Text} (hkey : IsWord key) :
    write db ("DEL".toList ++ ' ' :: key) = some (db.del key) := by
  have hname : IsWord "DEL".toList := by decide
  rw [write, args_pair hname hkey]
  rfl

theorem hmget_names (db : Db) {key : Text} (hkey : IsWord key) {names : List String}
    (hne : names ≠ []) (hnames : ∀ name ∈ names, IsLabel name) :
    hmget db (nameLine ("HMGET".toList ++ ' ' :: key) names) =
      some ((names.map field).map fun f => (db.find key).bind fun h => h f) := by
  have hname : IsWord "HMGET".toList := by decide
  rw [hmget, args_of_plain (plain_nameLine (plain_pair hname hkey) hnames), words_nameLine hnames,
    words_pair hname hkey, Option.bind_some]
  show (match parse ("HMGET".toList :: key :: names.map field) with
    | .hmget key fields => some (fields.map fun f => (db.find key).bind fun h => h f)
    | _ => none) = _
  rw [parse_hmget (by simpa using hne)]

theorem hmget_of_find {db : Db} {key : Text} (hkey : IsWord key) {names : List String}
    (hne : names ≠ []) (hnames : ∀ name ∈ names, IsLabel name) {hash : Hash}
    (hfind : db.find key = some hash) :
    hmget db (nameLine ("HMGET".toList ++ ' ' :: key) names) =
      some ((names.map field).map hash) := by
  rw [hmget_names db hkey hne hnames, hfind]
  rfl

theorem keys_of_args (db : Db) {text pattern : Text}
    (h : args text = some ["keys".toList, pattern]) (order : List Text) :
    keys db text order =
      if order.Perm (db.keys.filter (glob pattern)) then some order else none := by
  rw [keys, h]
  rfl

/-! ## Records -/

def IsPart (text : Text) : Prop :=
  IsWord text ∧ '#' ∉ text ∧ '*' ∉ text ∧ '?' ∉ text

instance (text : Text) : Decidable (IsPart text) := inferInstanceAs (Decidable (_ ∧ _ ∧ _ ∧ _))

/-- A kind of records. Each has an owner and a name of its own, and a hash may lack the field
that makes it one. -/
structure Table (ω α : Type*) where
  tag : Text
  owner : ω → Text
  decode : Hash → Option α
  isPart_tag : IsPart tag
  isPart_owner : ∀ w, IsPart (owner w)
  owner_injective : Function.Injective owner

def head (key : Text) : Text := key.takeWhile (· ≠ '#')

theorem head_append {tag : Text} (rest : Text) (h : '#' ∉ tag) :
    head (tag ++ '#' :: rest) = tag := by
  have hall : ∀ c ∈ tag, decide (c ≠ '#') = true := fun c hc => by
    have hne : c ≠ '#' := fun heq => h (heq ▸ hc)
    simpa using hne
  rw [head, List.takeWhile_append_of_pos hall, List.takeWhile_cons_of_neg (by simp)]
  exact List.append_nil tag

theorem append_sharp_inj {a a' b b' : Text} (ha : '#' ∉ a) (ha' : '#' ∉ a') :
    a ++ '#' :: b = a' ++ '#' :: b' ↔ a = a' ∧ b = b' := by
  constructor
  · intro h
    have haa : a = a' := by rw [← head_append b ha, h, head_append b' ha']
    subst haa
    exact ⟨rfl, (List.cons.inj (List.append_cancel_left h)).2⟩
  · rintro ⟨rfl, rfl⟩
    rfl

theorem glob_star (text : Text) : glob ['*'] text := by
  rw [glob, List.any_eq_true]
  exact ⟨[], (List.mem_tails [] text).mpr (List.nil_suffix), rfl⟩

theorem glob_cons {c : Char} (hc : c ≠ '*' ∧ c ≠ '?') (pattern : Text) (d : Char) (text : Text) :
    glob (c :: pattern) (d :: text) = (decide (c = d) && glob pattern text) := by
  rw [glob]
  · simp [hc.2]
  · exact fun h => hc.1 h

theorem glob_cons_nil {c : Char} (hc : c ≠ '*') (pattern : Text) :
    glob (c :: pattern) [] = false := by
  rw [glob]
  exact fun h => hc h

theorem glob_append_star {part : Text} (h : '*' ∉ part ∧ '?' ∉ part) (text : Text) :
    glob (part ++ ['*']) text ↔ part <+: text := by
  induction part generalizing text with
  | nil => exact ⟨fun _ => List.nil_prefix, fun _ => glob_star text⟩
  | cons c part ih =>
    obtain ⟨hstar, hpart⟩ := not_or.mp (mt List.mem_cons.mpr h.1)
    obtain ⟨hmark, hpart'⟩ := not_or.mp (mt List.mem_cons.mpr h.2)
    cases text with
    | nil => simp [glob_cons_nil (Ne.symm hstar)]
    | cons d text =>
      rw [List.cons_append, glob_cons ⟨Ne.symm hstar, Ne.symm hmark⟩, Bool.and_eq_true,
        ih ⟨hpart, hpart'⟩, List.cons_prefix_cons, decide_eq_true_iff]

namespace Table
variable {ω α : Type*} (T : Table ω α)

def key (w : ω) (id : String) : Text := T.tag ++ '#' :: (T.owner w ++ '#' :: id.toList)

def pattern (w : ω) : Text := T.tag ++ '#' :: (T.owner w ++ ['#', '*'])

theorem key_inj {w w' : ω} {id id' : String} : T.key w id = T.key w' id' ↔ w = w' ∧ id = id' := by
  unfold key
  rw [append_sharp_inj T.isPart_tag.2.1 T.isPart_tag.2.1,
    append_sharp_inj (T.isPart_owner w).2.1 (T.isPart_owner w').2.1, T.owner_injective.eq_iff,
    String.toList_inj]
  simp

theorem head_key (w : ω) (id : String) : head (T.key w id) = T.tag :=
  head_append _ T.isPart_tag.2.1

theorem isWord_key (w : ω) {id : String} (hid : IsClean id.toList) : IsWord (T.key w id) := by
  obtain ⟨-, htag, htagPlain⟩ := T.isPart_tag.1
  obtain ⟨-, howner, hownerPlain⟩ := (T.isPart_owner w).1
  refine ⟨by simp [key], by simp [key, htag, howner, hid.1], ?_⟩
  exact htagPlain.append (.cons (by decide) (hownerPlain.append (.cons (by decide) hid.2)))

theorem isWord_pattern (w : ω) : IsWord (T.pattern w) := by
  obtain ⟨-, htag, htagPlain⟩ := T.isPart_tag.1
  obtain ⟨-, howner, hownerPlain⟩ := (T.isPart_owner w).1
  refine ⟨by simp [pattern], by simp [pattern, htag, howner], ?_⟩
  exact htagPlain.append (.cons (by decide) (hownerPlain.append (by decide)))

theorem glob_pattern (w : ω) (k : Text) : glob (T.pattern w) k ↔ ∃ id, k = T.key w id := by
  have hsplit : T.pattern w = (T.tag ++ '#' :: (T.owner w ++ ['#'])) ++ ['*'] := by
    simp [pattern]
  have hstar : '*' ∉ T.tag ++ '#' :: (T.owner w ++ ['#']) ∧
      '?' ∉ T.tag ++ '#' :: (T.owner w ++ ['#']) := by
    have htag := T.isPart_tag.2.2
    have howner := (T.isPart_owner w).2.2
    simp [htag, howner]
  rw [hsplit, glob_append_star hstar]
  constructor
  · rintro ⟨rest, rfl⟩
    exact ⟨String.ofList rest, by simp [key]⟩
  · rintro ⟨id, rfl⟩
    exact ⟨id.toList, by simp [key]⟩

structure Holds (db : Db) (m : ω → Keyspace String α) : Prop where
  find : ∀ w id, (db.find (T.key w id)).map T.decode = ((m w).find id).map some
  clean : ∀ w, ∀ id ∈ (m w).keys, IsClean id.toList

variable {T} {db : Db} {m : ω → Keyspace String α}

theorem Holds.find_hash (h : T.Holds db m) {w : ω} {id : String} {a : α}
    (ha : (m w).find id = some a) :
    ∃ hash, db.find (T.key w id) = some hash ∧ T.decode hash = some a := by
  have hmap := h.find w id
  rw [ha, Option.map_some] at hmap
  exact Option.map_eq_some_iff.mp hmap

theorem Holds.of_same (h : T.Holds db m) {db' : Db} {k : Text} (hk : head k ≠ T.tag)
    (hsame : ∀ k', k' ≠ k → db'.find k' = db.find k') : T.Holds db' m := by
  refine ⟨fun w id => ?_, h.clean⟩
  have hne : T.key w id ≠ k := fun heq => hk (heq ▸ T.head_key w id)
  rw [hsame _ hne]
  exact h.find w id

variable [DecidableEq ω]

theorem Holds.set (h : T.Holds db m) (w : ω) {id : String} (hid : IsClean id.toList) {hash : Hash}
    {a : α} (ha : T.decode hash = some a) :
    T.Holds (db.set (T.key w id) hash) (Function.update m w ((m w).set id a)) := by
  constructor
  · intro w' id'
    rw [Keyspace.find_set, Function.update_apply, Function.update_apply]
    by_cases hw : w' = w
    · subst hw
      rw [if_pos rfl, Keyspace.find_set, Function.update_apply]
      by_cases hname : id' = id
      · rw [if_pos (congrArg (T.key w') hname), if_pos hname, Option.map_some, ha]
        rfl
      · rw [if_neg (fun heq => hname (T.key_inj.mp heq).2), if_neg hname]
        exact h.find w' id'
    · rw [if_neg (fun heq => hw (T.key_inj.mp heq).1), if_neg hw]
      exact h.find w' id'
  · intro w' id' hmem
    rw [Function.update_apply] at hmem
    split_ifs at hmem with hw
    · rcases List.mem_insert_iff.mp hmem with rfl | hmem
      · exact hid
      · exact h.clean w id' hmem
    · exact h.clean w' id' hmem

theorem Holds.del (h : T.Holds db m) (w : ω) (id : String) :
    T.Holds (db.del (T.key w id)) (Function.update m w ((m w).del id)) := by
  constructor
  · intro w' id'
    rw [Keyspace.find_del, Function.update_apply, Function.update_apply]
    by_cases hw : w' = w
    · subst hw
      rw [if_pos rfl, Keyspace.find_del, Function.update_apply]
      by_cases hname : id' = id
      · rw [if_pos (congrArg (T.key w') hname), if_pos hname]
        rfl
      · rw [if_neg (fun heq => hname (T.key_inj.mp heq).2), if_neg hname]
        exact h.find w' id'
    · rw [if_neg (fun heq => hw (T.key_inj.mp heq).1), if_neg hw]
      exact h.find w' id'
  · intro w' id' hmem
    rw [Function.update_apply] at hmem
    split_ifs at hmem with hw
    · exact h.clean w id' (List.mem_of_mem_erase hmem)
    · exact h.clean w' id' hmem

omit [DecidableEq ω]

theorem Holds.keys_iff (h : T.Holds db m) (w : ω) {text : Text}
    (htext : args text = some ["keys".toList, T.pattern w]) (order reply : List Text) :
    keys db text order = some reply ↔
      reply = order ∧ ∃ ids : List String, order = ids.map (T.key w) ∧ ids.Perm (m w).keys := by
  have hinj : Function.Injective (T.key w) := fun _ _ heq => (T.key_inj.mp heq).2
  have hmem (id : String) : T.key w id ∈ db.keys ↔ id ∈ (m w).keys := by
    rw [db.mem_keys, (m w).mem_keys, ← Option.isSome_map (f := T.decode), h.find w id,
      Option.isSome_map]
  have hperm : (db.keys.filter (glob (T.pattern w))).Perm ((m w).keys.map (T.key w)) := by
    apply (List.perm_ext_iff_of_nodup (db.nodup.filter _) ((m w).nodup.map hinj)).mpr
    intro k
    rw [List.mem_filter, List.mem_map, T.glob_pattern]
    constructor
    · rintro ⟨hk, id, rfl⟩
      exact ⟨id, (hmem id).mp hk, rfl⟩
    · rintro ⟨id, hid, rfl⟩
      exact ⟨(hmem id).mpr hid, id, rfl⟩
  rw [keys_of_args db htext]
  split_ifs with horder
  · rw [Option.some.injEq]
    constructor
    · rintro rfl
      have hcomp : (Relation.Comp (· = List.map (T.key w) ·) List.Perm) order (m w).keys := by
        rw [List.eq_map_comp_perm]
        exact horder.trans hperm
      exact ⟨rfl, hcomp⟩
    · exact fun heq => heq.1.symm
  · constructor
    · exact fun hnone => absurd hnone (by simp)
    · rintro ⟨-, ids, rfl, hids⟩
      exact absurd ((hids.map _).trans hperm.symm) horder

theorem Holds.foldlM_records (h : T.Holds db m) {w : ω} {ids : List String}
    (hids : ∀ id ∈ ids, id ∈ (m w).keys) {β : Type*} {f : β → α → Option β}
    {g : β → Text → Option β}
    (hg : ∀ b id hash a, IsClean id.toList → db.find (T.key w id) = some hash →
      T.decode hash = some a → g b (T.key w id) = f b a) (b : β) :
    (ids.map (T.key w)).foldlM g b = ((m w).records ids).foldlM f b := by
  induction ids generalizing b with
  | nil => rfl
  | cons id ids ih =>
    have hmem := hids id List.mem_cons_self
    obtain ⟨a, ha⟩ := Option.isSome_iff_exists.mp (((m w).mem_keys id).mp hmem)
    obtain ⟨hash, hfind, hdecode⟩ := h.find_hash ha
    have hrest := ih fun i hi => hids i (List.mem_cons_of_mem id hi)
    rw [List.map_cons, List.foldlM_cons, hg b id hash a (h.clean w id hmem) hfind hdecode,
      Keyspace.records, List.filterMap_cons_some ha, List.foldlM_cons]
    exact congrArg (f b a).bind (funext fun c => hrest c)

/-- A reply to `KEYS` whose hashes are read one by one is the records in some order. -/
theorem Holds.load_iff (h : T.Holds db m) (w : ω) {text : Text}
    (htext : args text = some ["keys".toList, T.pattern w]) {β : Type*} {f : β → α → Option β}
    {g : β → Text → Option β}
    (hg : ∀ b id hash a, IsClean id.toList → db.find (T.key w id) = some hash →
      T.decode hash = some a → g b (T.key w id) = f b a) (order : List Text) (b b' : β) :
    ((keys db text order).bind fun ks => ks.foldlM g b) = some b' ↔
      ∃ ids : List String, order = ids.map (T.key w) ∧ ids.Perm (m w).keys ∧
        ((m w).records ids).foldlM f b = some b' := by
  rw [Option.bind_eq_some_iff]
  constructor
  · rintro ⟨ks, hks, hfold⟩
    obtain ⟨rfl, ids, rfl, hids⟩ := (h.keys_iff w htext order ks).mp hks
    rw [h.foldlM_records (fun id hid => hids.mem_iff.mp hid) hg] at hfold
    exact ⟨ids, rfl, hids, hfold⟩
  · rintro ⟨ids, rfl, hids, hfold⟩
    rw [← h.foldlM_records (fun id hid => hids.mem_iff.mp hid) hg] at hfold
    exact ⟨_, (h.keys_iff w htext _ _).mpr ⟨rfl, ids, rfl, hids⟩, hfold⟩

end Table

end Redis
