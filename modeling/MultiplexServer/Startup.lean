import MultiplexServer.ConfigurationAcceptance

/-! The way from the command line to the process: `c_strings`, `c_ifile`, the arguments,
`c_config::load`, and `main` up to `start_process`. A text is a string; where the source
looks at single bytes it only looks for ASCII ones. -/

namespace MultiplexServer

namespace Strings

def isspace (c : Char) : Bool := c = ' ' || (9 ≤ c.toNat && c.toNat ≤ 13)

def ltrim (original : String) : String := .ofList (original.toList.dropWhile isspace)

def rtrim (original : String) : String :=
  .ofList (original.toList.reverse.dropWhile isspace).reverse

def trim (s : String) : String := ltrim (rtrim s)

def toLower (original : String) : String := .ofList (original.toList.map Char.toLower)

end Strings

namespace Configuration
open Strings Json

/-- `c_ifile::read`: the lines without what separates them, unless there is nothing. -/
def readLines (content : List UInt8) : Option (List UInt8) :=
  if content = [] then none else some (content.filter (· ≠ 10))

def assignArgument (arguments : List (String × String)) (name value : String) :
    List (String × String) :=
  (name, value) :: arguments.filter (·.1 ≠ name)

structure ArgumentState where
  name : String
  value : String
  arguments : List (String × String)

def readToken (s : ArgumentState) (text : String) : Option ArgumentState :=
  let token := trim text
  if token = "" ∨ token = "-h" ∨ token = "-H" then none
  else
    let s :=
      if s.name = "" then { s with name := toLower token }
      else if s.value = "" then { s with value := token }
      else s
    if s.name ≠ "" ∧ s.value ≠ "" then
      some ⟨"", "", assignArgument s.arguments s.name s.value⟩
    else some s

def loadArguments (argv : List String) : Bool × Option (List (String × String)) :=
  let read :=
    if argv.length ≠ 1 then argv.tail.foldlM readToken ⟨"", "", []⟩ else some ⟨"", "", []⟩
  match read with
  | none => (true, none)
  | some s =>
    if s.name ≠ "" ∧ s.value = "" then (false, none)
    else if s.arguments.all fun e => e.1 = "-f" || e.1 = "-h" then (false, some s.arguments)
    else (false, none)

structure Loaded where
  result : Bool
  helpRequested : Bool
  config : Option Config

section Main

variable (file : String → Option (List UInt8)) (parse : List UInt8 → Option Json)

def load (argv : List String) : Except StartFailure Loaded :=
  if argv.length = 2 then
    if argv[1]? = some "-h" ∨ argv[1]? = some "-H" then .ok ⟨true, true, none⟩
    else .ok ⟨false, false, none⟩
  else
    match loadArguments argv with
    | (helpRequested, none) => .ok ⟨false, helpRequested, none⟩
    | (helpRequested, some arguments) =>
      let loaded := loadConfig "-f" arguments (fun filename => (file filename).bind readLines) parse
      if loaded.1 then do
        let config ← construct loaded.2
        return ⟨true, helpRequested, some config⟩
      else .ok ⟨false, helpRequested, none⟩

inductive Startup where
  | returns (code : Nat)
  | runs (config : Config) (process : Process)

def main (argv : List String) : Except StartFailure Startup := do
  let loaded ← load file parse argv
  if !loaded.result then return .returns 1
  if loaded.helpRequested then return .returns 0
  match loaded.config with
  | none => return .returns 1
  | some config =>
    let process ← getProcess config.processType
    return .runs config process

end Main

/-! ## The arguments -/

def IsArgument (text : String) : Prop := trim text ≠ "" ∧ trim text ≠ "-h" ∧ trim text ≠ "-H"

instance (text : String) : Decidable (IsArgument text) := inferInstanceAs (Decidable (_ ∧ _))

theorem toLower_toList (text : String) : (toLower text).toList = text.toList.map Char.toLower := by
  rw [toLower, String.toList_ofList]

theorem toLower_ne_empty {text : String} (h : text ≠ "") : toLower text ≠ "" := by
  intro heq
  have hlist := congrArg String.toList heq
  rw [toLower_toList, String.toList_empty, List.map_eq_nil_iff] at hlist
  exact h (String.toList_injective hlist)

theorem readToken_name {text : String} (h : IsArgument text) (arguments : List (String × String)) :
    readToken ⟨"", "", arguments⟩ text = some ⟨toLower (trim text), "", arguments⟩ := by
  unfold readToken
  obtain ⟨hempty, hlower, hupper⟩ := h
  simp [hempty, hlower, hupper]

theorem readToken_value {text name : String} (h : IsArgument text) (hname : name ≠ "")
    (arguments : List (String × String)) : readToken ⟨name, "", arguments⟩ text =
      some ⟨"", "", assignArgument arguments name (trim text)⟩ := by
  unfold readToken
  obtain ⟨hempty, hlower, hupper⟩ := h
  simp [hempty, hlower, hupper, hname]

theorem readToken_help {text : String} (h : ¬ IsArgument text) (s : ArgumentState) :
    readToken s text = none := by
  have hhelp : trim text = "" ∨ trim text = "-h" ∨ trim text = "-H" := by
    by_contra hno
    exact h ⟨fun heq => hno (.inl heq), fun heq => hno (.inr (.inl heq)),
      fun heq => hno (.inr (.inr heq))⟩
  simp only [readToken, if_pos hhelp]

def assignPairs (pairs : List (String × String)) (arguments : List (String × String)) :
    List (String × String) :=
  pairs.foldl (fun arguments pair =>
    assignArgument arguments (toLower (trim pair.1)) (trim pair.2)) arguments

def flattenPairs (pairs : List (String × String)) : List String :=
  pairs.flatMap fun pair => [pair.1, pair.2]

theorem exists_pairs : (texts : List String) →
    ∃ pairs rest, texts = flattenPairs pairs ++ rest ∧ rest.length ≤ 1
  | [] => ⟨[], [], rfl, Nat.zero_le 1⟩
  | [text] => ⟨[], [text], rfl, Nat.le_refl 1⟩
  | name :: value :: texts => by
    obtain ⟨pairs, rest, rfl, hrest⟩ := exists_pairs texts
    exact ⟨(name, value) :: pairs, rest, rfl, hrest⟩

theorem foldlM_help {texts : List String} (h : ∃ text ∈ texts, ¬ IsArgument text)
    (s : ArgumentState) : texts.foldlM readToken s = none := by
  induction texts generalizing s with
  | nil =>
    obtain ⟨text, hmem, -⟩ := h
    cases hmem
  | cons text texts ih =>
    rw [List.foldlM_cons]
    by_cases htext : IsArgument text
    · cases hread : readToken s text with
      | none => rfl
      | some next =>
        refine ih ?_ next
        obtain ⟨other, hmem, hother⟩ := h
        exact ⟨other, (List.mem_cons.mp hmem).resolve_left fun heq => hother (heq ▸ htext), hother⟩
    · rw [readToken_help htext]
      rfl

theorem foldlM_pairs {pairs : List (String × String)}
    (h : ∀ text ∈ flattenPairs pairs, IsArgument text) (arguments : List (String × String)) :
    (flattenPairs pairs).foldlM readToken ⟨"", "", arguments⟩ =
      some ⟨"", "", assignPairs pairs arguments⟩ := by
  induction pairs generalizing arguments with
  | nil => rfl
  | cons pair pairs ih =>
    have hname : IsArgument pair.1 := h _ (by simp [flattenPairs])
    have hvalue : IsArgument pair.2 := h _ (by simp [flattenPairs])
    have hrest : ∀ text ∈ flattenPairs pairs, IsArgument text := fun text htext =>
      h text (List.mem_append_right _ htext)
    have hsplit : flattenPairs (pair :: pairs) = pair.1 :: pair.2 :: flattenPairs pairs := rfl
    rw [hsplit, List.foldlM_cons, readToken_name hname, Option.bind_eq_bind, Option.bind_some,
      List.foldlM_cons, readToken_value hvalue (toLower_ne_empty hname.1), Option.bind_eq_bind,
      Option.bind_some, ih hrest]
    rfl

theorem foldlM_name {pairs : List (String × String)} {name : String}
    (h : ∀ text ∈ flattenPairs pairs, IsArgument text) (hname : IsArgument name)
    (arguments : List (String × String)) :
    (flattenPairs pairs ++ [name]).foldlM readToken ⟨"", "", arguments⟩ =
      some ⟨toLower (trim name), "", assignPairs pairs arguments⟩ := by
  rw [List.foldlM_append, foldlM_pairs h, Option.bind_eq_bind, Option.bind_some, List.foldlM_cons,
    readToken_name hname]
  rfl

theorem mem_keys_assignPairs {pairs arguments : List (String × String)} {name : String} :
    name ∈ (assignPairs pairs arguments).map Prod.fst ↔
      name ∈ arguments.map Prod.fst ∨ ∃ pair ∈ pairs, toLower (trim pair.1) = name := by
  induction pairs generalizing arguments with
  | nil => simp [assignPairs]
  | cons pair pairs ih =>
    have hassign : name ∈ (assignArgument arguments (toLower (trim pair.1)) (trim pair.2)).map
        Prod.fst ↔ name = toLower (trim pair.1) ∨ name ∈ arguments.map Prod.fst := by
      by_cases heq : name = toLower (trim pair.1) <;> simp [assignArgument, heq]
    have hstep : assignPairs (pair :: pairs) arguments =
        assignPairs pairs (assignArgument arguments (toLower (trim pair.1)) (trim pair.2)) := rfl
    rw [hstep, ih, hassign, List.exists_mem_cons_iff]
    constructor
    · rintro ((rfl | hold) | hlater)
      · exact .inr (.inl rfl)
      · exact .inl hold
      · exact .inr (.inr hlater)
    · rintro (hold | rfl | hlater)
      · exact .inl (.inr hold)
      · exact .inl (.inl rfl)
      · exact .inr hlater

theorem lookup_assignPairs {pairs : List (String × String)}
    (h : ∀ pair ∈ pairs, toLower (trim pair.1) = "-f") :
    (assignPairs pairs []).lookup "-f" = pairs.getLast?.map fun pair => trim pair.2 := by
  rcases List.eq_nil_or_concat' pairs with rfl | ⟨before, pair, rfl⟩
  · rfl
  · have hpair := h pair (by simp)
    rw [assignPairs, List.foldl_concat, hpair, List.getLast?_concat]
    simp [assignArgument]

theorem toNat_toLower (c : Char) :
    c.toLower.toNat = if 65 ≤ c.toNat ∧ c.toNat ≤ 90 then c.toNat + 32 else c.toNat := by
  have hrange : (c.val ≥ 'A'.val ∧ c.val ≤ 'Z'.val) ↔ 65 ≤ c.toNat ∧ c.toNat ≤ 90 := by
    rw [ge_iff_le, UInt32.le_iff_toNat_le, UInt32.le_iff_toNat_le]
    rfl
  unfold Char.toLower
  split_ifs with hupper hnat hnat
  · have hsum : (c.val + ('a'.val - 'A'.val)).toNat = c.toNat + 32 := by
      have hsize : c.val.toNat ≤ 90 := hnat.2
      rw [UInt32.toNat_add]
      change (c.val.toNat + 32) % 2 ^ 32 = c.val.toNat + 32
      omega
    exact hsum
  · exact absurd (hrange.mp hupper) hnat
  · exact absurd (hrange.mpr hnat) hupper
  · rfl

theorem toLower_ne_help {text : String} (hlower : text ≠ "-h") (hupper : text ≠ "-H") :
    toLower text ≠ "-h" := by
  intro heq
  have hlist : text.toList.map Char.toLower = ['-', 'h'] := by
    rw [← toLower_toList, heq]
    rfl
  have hlength : text.toList.length = 2 := by simpa using congrArg List.length hlist
  obtain ⟨first, second, htext⟩ := List.length_eq_two.mp hlength
  rw [htext] at hlist
  simp only [List.map_cons, List.map_nil, List.cons.injEq, and_true] at hlist
  have hfirst := (toNat_toLower first).symm.trans (congrArg Char.toNat hlist.1)
  have hsecond := (toNat_toLower second).symm.trans (congrArg Char.toNat hlist.2)
  have hdash : first = '-' := by
    apply Char.toNat_inj.mp
    change _ = 45 at hfirst
    change _ = 45
    split_ifs at hfirst <;> omega
  have hletter : second = 'h' ∨ second = 'H' := by
    rw [← Char.toNat_inj, ← Char.toNat_inj]
    change _ = 104 at hsecond
    change _ = 104 ∨ _ = 72
    split_ifs at hsecond <;> omega
  rcases hletter with rfl | rfl
  · exact hlower (String.toList_injective (htext.trans (by rw [hdash]; rfl)))
  · exact hupper (String.toList_injective (htext.trans (by rw [hdash]; rfl)))

theorem flattenPairs_injective : Function.Injective flattenPairs := by
  intro pairs
  induction pairs with
  | nil =>
    intro other h
    cases other with
    | nil => rfl
    | cons => cases h
  | cons pair pairs ih =>
    intro other h
    cases other with
    | nil => cases h
    | cons pair' pairs' =>
      simp only [flattenPairs, List.flatMap_cons, List.cons_append, List.nil_append,
        List.cons.injEq] at h
      rw [Prod.ext h.1 h.2.1, ih h.2.2]

theorem length_flattenPairs (pairs : List (String × String)) :
    (flattenPairs pairs).length = 2 * pairs.length := by
  induction pairs with
  | nil => rfl
  | cons pair pairs ih =>
    have hsplit : flattenPairs (pair :: pairs) = pair.1 :: pair.2 :: flattenPairs pairs := rfl
    rw [hsplit, List.length_cons, List.length_cons, ih, List.length_cons]
    omega

theorem all_names_iff {pairs : List (String × String)}
    (h : ∀ text ∈ flattenPairs pairs, IsArgument text) :
    ((assignPairs pairs []).all fun e => e.1 = "-f" || e.1 = "-h") = true ↔
      ∀ pair ∈ pairs, toLower (trim pair.1) = "-f" := by
  have hkeys : ((assignPairs pairs []).all fun e => e.1 = "-f" || e.1 = "-h") = true ↔
      ∀ name ∈ (assignPairs pairs []).map Prod.fst, name = "-f" ∨ name = "-h" := by
    simp
  rw [hkeys]
  simp only [mem_keys_assignPairs, List.map_nil, List.not_mem_nil, false_or]
  constructor
  · intro hnames pair hpair
    have hargument : IsArgument pair.1 := h pair.1 (List.mem_flatMap.mpr ⟨pair, hpair, by simp⟩)
    exact (hnames _ ⟨pair, hpair, rfl⟩).resolve_right (toLower_ne_help hargument.2.1 hargument.2.2)
  · rintro hfiles name ⟨pair, hpair, rfl⟩
    exact .inl (hfiles pair hpair)

/-- Pairs of `-f` and a file, every text one that can be a name or a value. -/
structure NamesFiles (argv : List String) (pairs : List (String × String)) : Prop where
  paired : argv.tail = flattenPairs pairs
  arguments : ∀ text ∈ argv.tail, IsArgument text
  files : ∀ pair ∈ pairs, toLower (trim pair.1) = "-f"

theorem readTokens_eq (argv : List String) :
    (if argv.length ≠ 1 then argv.tail.foldlM readToken ⟨"", "", []⟩ else some ⟨"", "", []⟩) =
      argv.tail.foldlM readToken ⟨"", "", []⟩ := by
  split_ifs with hlength
  · rfl
  · obtain ⟨program, rfl⟩ := List.length_eq_one_iff.mp (not_not.mp hlength)
    rfl

theorem loadArguments_of_names {argv : List String} {pairs : List (String × String)}
    (h : NamesFiles argv pairs) : loadArguments argv = (false, some (assignPairs pairs [])) := by
  have hpairs : ∀ text ∈ flattenPairs pairs, IsArgument text := h.paired ▸ h.arguments
  simp only [loadArguments, readTokens_eq]
  simp only [h.paired, foldlM_pairs hpairs, ne_eq, not_true_eq_false, false_and, if_false,
    if_pos ((all_names_iff hpairs).mpr h.files)]

example : loadArguments ["server", " -F ", "a.json", "-f", "b.json"] =
    (false, some [("-f", "b.json")]) := by decide +kernel

theorem loadArguments_of_not_names {argv : List String}
    (h : ∀ pairs, ¬ NamesFiles argv pairs) : (loadArguments argv).2 = none := by
  simp only [loadArguments, readTokens_eq]
  by_cases hall : ∀ text ∈ argv.tail, IsArgument text
  · obtain ⟨pairs, rest, hsplit, hrest⟩ := exists_pairs argv.tail
    have hpairs : ∀ text ∈ flattenPairs pairs, IsArgument text := fun text htext =>
      hall text (hsplit ▸ List.mem_append_left rest htext)
    match rest, hrest with
    | [], _ =>
      rw [List.append_nil] at hsplit
      have hnames : ¬ ((assignPairs pairs []).all fun e => e.1 = "-f" || e.1 = "-h") = true := by
        rw [all_names_iff hpairs]
        exact fun hfiles => h pairs ⟨hsplit, hall, hfiles⟩
      simp only [hsplit, foldlM_pairs hpairs, ne_eq, not_true_eq_false, false_and, if_false,
        if_neg hnames]
    | [name], _ =>
      have hname : IsArgument name := hall name (hsplit ▸ by simp)
      simp only [hsplit, foldlM_name hpairs hname, ne_eq, toLower_ne_empty hname.1,
        not_false_eq_true, and_self, if_true]
  · have hhelp : ∃ text ∈ argv.tail, ¬ IsArgument text := by simpa using hall
    rw [foldlM_help hhelp]

/-! ## From the command line to the process -/

section Main

variable {file : String → Option (List UInt8)} {parse : List UInt8 → Option Json}
  {argv : List String} {j : Json}

/-- The one argument that is looked at as it stands. -/
def AsksForHelp (argv : List String) : Prop :=
  argv.length = 2 ∧ (argv[1]? = some "-h" ∨ argv[1]? = some "-H")

/-- The document in the last of the files that the command line names: lines joined, up to
the first NUL; and it is accepted. -/
def Accepted (file : String → Option (List UInt8)) (parse : List UInt8 → Option Json)
    (argv : List String) (j : Json) : Prop :=
  ∃ pairs filename content, NamesFiles argv pairs ∧
    (pairs.getLast?.map fun pair => trim pair.2) = some filename ∧
    file filename = some content ∧ content ≠ [] ∧
    parse ((content.filter (· ≠ 10)).takeWhile (· ≠ 0)) = some j ∧ j.paths.Nodup ∧ WellTyped j

theorem NamesFiles.length_ne_two {pairs : List (String × String)} (h : NamesFiles argv pairs) :
    argv.length ≠ 2 := by
  have hlength := congrArg List.length h.paired
  rw [length_flattenPairs, List.length_tail] at hlength
  omega

theorem parsedFile_of_names {pairs : List (String × String)} (h : NamesFiles argv pairs) :
    parsedFile "-f" (assignPairs pairs []) (fun filename => (file filename).bind readLines) parse =
      (pairs.getLast?.map fun pair => trim pair.2).bind fun filename =>
        ((file filename).bind readLines).bind fun content =>
          parse (content.takeWhile (· ≠ 0)) := by
  rw [parsedFile, lookup_assignPairs h.files]
  rfl

theorem load_of_names {pairs : List (String × String)} (h : NamesFiles argv pairs) :
    load file parse argv =
      let loaded := loadConfig "-f" (assignPairs pairs [])
        (fun filename => (file filename).bind readLines) parse
      if loaded.1 then do
        let config ← construct loaded.2
        return ⟨true, false, some config⟩
      else .ok ⟨false, false, none⟩ := by
  rw [load, if_neg h.length_ne_two, loadArguments_of_names h]

theorem main_of_help (h : AsksForHelp argv) : main file parse argv = .ok (.returns 0) := by
  rw [main, load, if_pos h.1, if_pos h.2]
  rfl

theorem main_of_refused {loaded : Loaded} (hload : load file parse argv = .ok loaded)
    (hresult : loaded.result = false) : main file parse argv = .ok (.returns 1) := by
  rw [main, hload]
  simp only [bind, Except.bind, hresult]
  rfl

theorem main_of_accepted (h : Accepted file parse argv j) :
    ∃ settings, Typed settings ∧ ((∃ started, start settings = .ok started) ↔ Complete j) ∧
      main file parse argv = (start settings).map fun started => .runs started.1 started.2 := by
  obtain ⟨pairs, filename, content, hnames, hlast, hfile, hcontent, hparse, hnodup, htyped⟩ := h
  have hparsed : parsedFile "-f" (assignPairs pairs [])
      (fun filename => (file filename).bind readLines) parse = some j := by
    rw [parsedFile_of_names hnames, hlast, Option.bind_some, hfile, Option.bind_some, readLines,
      if_neg hcontent, Option.bind_some, hparse]
  have hload := (loadConfig_iff hparsed).mpr ⟨hnodup, htyped⟩
  obtain ⟨settings, hsettings⟩ : ∃ settings, loadConfig "-f" (assignPairs pairs [])
      (fun filename => (file filename).bind readLines) parse = (true, settings) :=
    ⟨_, Prod.ext hload rfl⟩
  obtain ⟨hstored, hdistinct, hstores⟩ := loadConfig_eq_true hparsed hsettings
  have hpaths : settings.map Prod.fst = j.paths := stores_paths hstores
  refine ⟨settings, hstored, ?_, ?_⟩
  · rw [start_ok_iff hstored, lookup_iff_mem hdistinct, stores_string hstores, Complete, and_comm]
    simp only [lookup_isSome_iff, hpaths]
  · rw [main, load_of_names hnames, start]
    simp only [hsettings, if_true]
    cases construct settings with
    | error failure => rfl
    | ok config =>
      cases hprocess : getProcess config.processType <;>
        simp [bind, Except.bind, hprocess, pure, Except.pure, Except.map]

theorem main_of_not_accepted (hhelp : ¬ AsksForHelp argv)
    (h : ∀ j, ¬ Accepted file parse argv j) : main file parse argv = .ok (.returns 1) := by
  by_cases htwo : argv.length = 2
  · have hload : load file parse argv = .ok ⟨false, false, none⟩ := by
      rw [load, if_pos htwo, if_neg fun hmem => hhelp ⟨htwo, hmem⟩]
    exact main_of_refused hload rfl
  by_cases hnames : ∃ pairs, NamesFiles argv pairs
  · obtain ⟨pairs, hnames⟩ := hnames
    have hrefused : (loadConfig "-f" (assignPairs pairs [])
        (fun filename => (file filename).bind readLines) parse).1 = false := by
      cases hparsed : parsedFile "-f" (assignPairs pairs [])
          (fun filename => (file filename).bind readLines) parse with
      | none => simp [loadConfig, hparsed]
      | some j =>
        rw [Bool.eq_false_iff, ne_eq, loadConfig_iff hparsed]
        rintro ⟨hnodup, htyped⟩
        rw [parsedFile_of_names hnames] at hparsed
        obtain ⟨filename, hlast, hrest⟩ := Option.bind_eq_some_iff.mp hparsed
        obtain ⟨joined, hjoined, hparse⟩ := Option.bind_eq_some_iff.mp hrest
        obtain ⟨content, hfile, hlines⟩ := Option.bind_eq_some_iff.mp hjoined
        rw [readLines, Option.ite_none_left_eq_some] at hlines
        obtain ⟨hcontent, hlines⟩ := hlines
        cases hlines
        exact h j ⟨pairs, filename, content, hnames, hlast, hfile, hcontent, hparse, hnodup, htyped⟩
    have hload : load file parse argv = .ok ⟨false, false, none⟩ := by
      rw [load_of_names hnames]
      simp only [hrefused, Bool.false_eq_true, if_false]
    exact main_of_refused hload rfl
  · have hnone := loadArguments_of_not_names fun pairs hpairs => hnames ⟨pairs, hpairs⟩
    have hload : load file parse argv = .ok ⟨false, (loadArguments argv).1, none⟩ := by
      have hpair : loadArguments argv = ((loadArguments argv).1, none) := Prod.ext rfl hnone
      rw [load, if_neg htwo, hpair]
    exact main_of_refused hload rfl

theorem Accepted.not_asksForHelp (h : Accepted file parse argv j) : ¬ AsksForHelp argv := by
  obtain ⟨pairs, -, -, hnames, -⟩ := h
  exact fun hhelp => hnames.length_ne_two hhelp.1

theorem Accepted.unique {j' : Json} (h : Accepted file parse argv j)
    (h' : Accepted file parse argv j') : j = j' := by
  obtain ⟨pairs, filename, content, hnames, hlast, hfile, -, hparse, -⟩ := h
  obtain ⟨pairs', filename', content', hnames', hlast', hfile', -, hparse', -⟩ := h'
  obtain rfl := flattenPairs_injective (hnames.paired.symm.trans hnames'.paired)
  obtain rfl := Option.some.inj (hlast.symm.trans hlast')
  obtain rfl := Option.some.inj (hfile.symm.trans hfile')
  exact Option.some.inj (hparse.symm.trans hparse')

/-- What becomes of a command line: help, an error, a process, or an assertion that fails
on an accepted document in which something is missing. -/
theorem main_outcomes (file : String → Option (List UInt8)) (parse : List UInt8 → Option Json)
    (argv : List String) :
    (main file parse argv = .ok (.returns 0) ↔ AsksForHelp argv) ∧
    (main file parse argv = .ok (.returns 1) ↔
      ¬ AsksForHelp argv ∧ ∀ j, ¬ Accepted file parse argv j) ∧
    ((∃ config process, main file parse argv = .ok (.runs config process)) ↔
      ∃ j, Accepted file parse argv j ∧ Complete j) ∧
    ((∃ message, main file parse argv = .error (.assertion message)) ↔
      ∃ j, Accepted file parse argv j ∧ ¬ Complete j) := by
  by_cases hhelp : AsksForHelp argv
  · have hnone : ∀ j, ¬ Accepted file parse argv j := fun j h => h.not_asksForHelp hhelp
    simp [main_of_help hhelp, hhelp, hnone]
  by_cases haccepted : ∃ j, Accepted file parse argv j
  · obtain ⟨j, haccepted⟩ := haccepted
    obtain ⟨settings, htyped, hcomplete, hmain⟩ := main_of_accepted haccepted
    have hany : ∀ P : Json → Prop, (∃ j', Accepted file parse argv j' ∧ P j') ↔ P j := by
      intro P
      constructor
      · rintro ⟨j', hj', hP⟩
        exact haccepted.unique hj' ▸ hP
      · exact fun hP => ⟨j, haccepted, hP⟩
    have hrefused : ¬ ∀ j, ¬ Accepted file parse argv j := fun hnone => hnone j haccepted
    rw [hany Complete, hany fun j => ¬ Complete j, hmain, ← hcomplete]
    cases hstart : start settings with
    | ok started =>
      simp [Except.map, hhelp, hrefused]
      exact ⟨started.2⟩
    | error failure =>
      cases failure with
      | assertion message => simp [Except.map, hhelp, hrefused]
      | wrongType => exact absurd hstart (start_ne_wrongType htyped)
  · have hnone : ∀ j, ¬ Accepted file parse argv j := not_exists.mp haccepted
    simp [main_of_not_accepted hhelp hnone, hhelp, hnone]

end Main

end Configuration

end MultiplexServer
