import UcrashReport.Decoder.Addresses
import UcrashReport.Rust.FirstMatch

/-! # Matches of IPv6 addresses

The expression prefers as many groups as there are, up to eight, and takes a form that `::` shortens
where there are fewer than six groups before the `::`.
-/

namespace UcrashReport.Scrub

open Rust Rust.Text Regex

variable {isWord : Char → Bool} {before : Option Char} {g rest : Text} {gs hs : List Text}

/-! ## Groups -/

/-- No address goes on here: there is no hex digit, and none behind a colon. -/
structure Stops (rest : Text) : Prop where
  digit : ∀ c, rest.head? = some c → isAsciiHexdigit c = false
  colon : ∀ c s, rest = ':' :: c :: s → isAsciiHexdigit c = false

/-- A group and the colon behind it. -/
def groupColon : Regex := seq hexGroup (char ':')

/-- A colon and the group behind it. -/
def colonGroup : Regex := seq (char ':') hexGroup

theorem IsGroup.exists_cons (isGroup : IsGroup g) :
    ∃ c cs, g = c :: cs ∧ isAsciiHexdigit c = true := by
  obtain ⟨c, cs, rfl⟩ := List.exists_cons_of_ne_nil isGroup.ne_nil
  exact ⟨c, cs, rfl, isGroup.2 c List.mem_cons_self⟩

theorem prefers_hexGroup (isGroup : IsGroup g)
    (stops : ∀ c, rest.head? = some c → isAsciiHexdigit c = false) :
    Prefers isWord hexGroup before g rest := by
  obtain ⟨c, cs, rfl, digit⟩ := isGroup.exists_cons
  obtain ⟨⟨-, short⟩, digits⟩ := isGroup
  have first : Prefers isWord (times 1 hexDigit) before [c] (cs ++ rest) :=
    Prefers.seq (.set digit) .empty
  have others : Prefers isWord (upTo 3 hexDigit) ([c].getLast?.or before) cs rest :=
    .upTo_set (fun d member => digits d (.tail c member)) (Nat.le_of_succ_le_succ short) stops
  exact first.seq others

theorem prefers_groupColon (isGroup : IsGroup g) (before : Option Char) (rest : Text) :
    Prefers isWord groupColon before (g ++ [':']) rest := by
  have here : Prefers isWord hexGroup before g ([':'] ++ rest) :=
    prefers_hexGroup isGroup (by
      rintro c first
      obtain rfl : ':' = c := by simpa using first
      decide)
  exact here.seq (.set (by decide))

theorem prefers_colonGroup (isGroup : IsGroup g)
    (stops : ∀ c, rest.head? = some c → isAsciiHexdigit c = false) :
    Prefers isWord colonGroup before (':' :: g) rest := by
  have here : Prefers isWord (char ':') before [':'] (g ++ rest) := .set (by decide)
  exact here.seq (prefers_hexGroup isGroup stops)

/-- What begins with a group begins with a hex digit. -/
theorem begins_of_hexGroup {next : Regex} {t : Text} (takes : (seq hexGroup next).Takes t) :
    ∃ c cs, t = c :: cs ∧ isAsciiHexdigit c = true := by
  obtain ⟨u, v, first, -, rfl⟩ := takes
  obtain ⟨c, cs, rfl, digit⟩ := (takes_hexGroup.mp first).exists_cons
  exact ⟨c, cs ++ v, rfl, digit⟩

/-- Behind a group where no address goes on there is no colon with a group. -/
theorem fails_groupColon {next : Regex} (isGroup : IsGroup g) (stops : Stops rest)
    (begins : ∀ t, next.Takes t → ∃ c cs, t = c :: cs ∧ isAsciiHexdigit c = true) :
    Fails isWord (seq groupColon next) before (g ++ rest) := by
  intro m member
  have text := runs_spec _ before (g ++ rest) m member
  obtain ⟨_, v, ⟨g', colon, first, second, rfl⟩, third, taken⟩ := takes_of_mem_runs m member
  obtain rfl := takes_char.mp second
  obtain ⟨c, cs, rfl, digit⟩ := begins v third
  have isGroup' := takes_hexGroup.mp first
  rw [taken] at text
  simp only [List.append_assoc, List.cons_append] at text
  -- The colon is in neither group, so both groups end there.
  obtain ⟨more, left, right⟩ | ⟨more, left, right⟩ := List.append_eq_append_iff.mp text
  · cases more with
    | nil =>
      rw [List.nil_append] at right
      have noDigit := stops.colon c (cs ++ m.rest) right.symm
      rw [digit] at noDigit
      contradiction
    | cons d more =>
      obtain ⟨rfl, -⟩ := List.cons.inj right
      exact isGroup.colon_free (by rw [left]; simp)
  · cases more with
    | nil =>
      have noDigit := stops.colon c (cs ++ m.rest) (by simpa using right)
      rw [digit] at noDigit
      contradiction
    | cons d more =>
      have noDigit := stops.digit d (by rw [right]; rfl)
      rw [isGroup'.2 d (by rw [left]; simp)] at noDigit
      contradiction

theorem stops_colon (rest : Text) (c : Char) (first : (':' :: rest).head? = some c) :
    isAsciiHexdigit c = false := by
  obtain rfl : ':' = c := by simpa using first
  decide

/-! ## The long form -/

/-- A group at a boundary. -/
def lastGroup : Regex := sequence [hexGroup, boundary]

/-- Where a group ends at a boundary no hex digit follows. -/
theorem stops_of_boundary {classes : CharClasses}
    (outer : rest.head?.any classes.isWord = false) (c : Char) (first : rest.head? = some c) :
    isAsciiHexdigit c = false := by
  rw [Bool.eq_false_iff]
  intro digit
  rw [first, Option.any_some, classes.isWord_of_isAsciiHexdigit digit] at outer
  contradiction

theorem prefers_boundary {last : Option Char} (edge : last.any isWord ≠ rest.head?.any isWord) :
    Prefers isWord (sequence [boundary]) last [] rest := by
  have here : Prefers isWord boundary last [] rest := .boundary edge
  exact here.seq .empty

variable {classes : CharClasses}

theorem last_of_group (isGroup : IsGroup g) (before : Option Char) :
    (g.getLast?.or before).any classes.isWord = true := by
  rw [List.getLast?_eq_some_getLast isGroup.ne_nil]
  exact classes.isWord_of_isAsciiHexdigit (isGroup.2 _ (List.getLast_mem isGroup.ne_nil))

theorem prefers_lastGroup (isGroup : IsGroup g) (outer : rest.head?.any classes.isWord = false)
    (before : Option Char) : Prefers classes.isWord lastGroup before g rest := by
  have here : Prefers classes.isWord hexGroup before g ([] ++ rest) :=
    prefers_hexGroup isGroup (stops_of_boundary outer)
  have whole := here.seq (prefers_boundary (by rw [last_of_group isGroup, outer]; simp))
  rwa [List.append_nil] at whole

theorem begins_of_upTo_lastGroup {n : ℕ} {t : Text}
    (takes : (seq (upTo n groupColon) lastGroup).Takes t) :
    ∃ c cs, t = c :: cs ∧ isAsciiHexdigit c = true := by
  obtain ⟨u, v, first, last, rfl⟩ := takes
  obtain ⟨parts, -, all, rfl⟩ := takes_upTo.mp first
  cases parts with
  | nil => exact begins_of_hexGroup last
  | cons part parts =>
    obtain ⟨c, cs, rfl, digit⟩ := begins_of_hexGroup (all part List.mem_cons_self)
    exact ⟨c, cs ++ parts.flatten ++ v, by simp, digit⟩

/-- As many groups as there are; the last one is given up by the repetition. -/
theorem prefers_upTo_lastGroup {n : ℕ} (groups : ∀ g ∈ gs, IsGroup g) (nonempty : gs ≠ [])
    (short : gs.length ≤ n + 1) (outer : rest.head?.any classes.isWord = false) (stops : Stops rest)
    (before : Option Char) :
    Prefers classes.isWord (seq (upTo n groupColon) lastGroup) before (join ':' gs) rest := by
  induction gs generalizing n before with
  | nil => contradiction
  | cons g gs ih =>
    have isGroup := groups g List.mem_cons_self
    cases gs with
    | nil =>
      have here := prefers_lastGroup isGroup outer before
      rw [join_singleton]
      cases n with
      | zero => exact here.congr (runs_seq_empty lastGroup before)
      | succ n =>
        exact .seq_upTo_of_fails
          (fails_groupColon isGroup stops fun _ => begins_of_upTo_lastGroup) here
    | cons g' gs =>
      obtain ⟨n, rfl⟩ : ∃ k, n = k + 1 := ⟨n - 1, by simp at short; omega⟩
      have later := fun before => ih (fun other member => groups other (.tail g member))
        (List.cons_ne_nil g' gs) (by simpa using short) before
      have round := (prefers_groupColon isGroup before _).seq (later _)
      rw [List.append_assoc] at round
      rw [join_cons_cons]
      exact .seq_upTo_succ round

theorem flatten_groupColon (gs : List Text) :
    (gs.map fun g => g ++ [':']).flatten = ended ':' gs := List.flatMap_def.symm

/-- From six to eight groups where no address goes on. -/
theorem prefers_full (groups : ∀ g ∈ gs, IsGroup g) (long : 6 ≤ gs.length) (short : gs.length ≤ 8)
    (outer : before.any classes.isWord = false) (outer' : rest.head?.any classes.isWord = false)
    (stops : Stops rest) : Prefers classes.isWord (bounded fullParts) before (join ':' gs) rest := by
  have firsts : (gs.take 5).length = 5 := by rw [List.length_take]; omega
  obtain ⟨g, others, drop⟩ := List.exists_cons_of_ne_nil (l := gs.drop 5)
    (by rw [Ne, List.drop_eq_nil_iff]; omega)
  have lengths := congrArg List.length (List.take_append_drop 5 gs)
  rw [List.length_append, firsts, drop] at lengths
  have tail : ∀ before, Prefers classes.isWord (seq (upTo 2 groupColon) lastGroup) before
      (join ':' (g :: others)) rest := by
    refine prefers_upTo_lastGroup (fun other member => groups other ?_) (List.cons_ne_nil g others)
      (by omega) outer' stops
    exact List.mem_of_mem_drop (drop ▸ member)
  have counted : ((gs.take 5).map fun g => g ++ [':']).length = 5 := by
    rw [List.length_map, firsts]
  have rounds := Prefers.seq_times counted
    (fun before rest part member => by
      obtain ⟨g, inFirsts, rfl⟩ := List.mem_map.mp member
      exact prefers_groupColon (groups g (List.mem_of_mem_take inFirsts)) before rest) tail before
  rw [flatten_groupColon, ended_append_join, ← drop, List.take_append_drop] at rounds
  apply Prefers.bounded
  · have word : ((join ':' gs) ++ rest).head?.any classes.isWord = true :=
      (word_of_join (fun field member c inField =>
        classes.isWord_of_isAsciiHexdigit ((groups field member).2 c inField))
        (by rintro rfl; simp at long) (fun field member => (groups field member).ne_nil) before rest).1
    rw [outer, word]
    simp
  · exact rounds.congr (runs_seq_assoc (times 5 groupColon) (upTo 2 groupColon) lastGroup before)

/-! ## The short form -/

theorem begins_of_groupColon {t : Text} (takes : groupColon.Takes t) :
    ∃ c cs, t = c :: cs ∧ isAsciiHexdigit c = true := begins_of_hexGroup takes

theorem prefers_star_groupColon (groups : ∀ g ∈ gs, IsGroup g) (before : Option Char) (s : Text) :
    Prefers isWord (star groupColon) before (ended ':' gs) (':' :: s) := by
  induction gs generalizing before with
  | nil => exact .star_nil (Fails.of_head (fun _ => begins_of_groupColon) (stops_colon s))
  | cons g gs ih =>
    have round : Prefers isWord groupColon before (g ++ [':']) (ended ':' gs ++ ':' :: s) :=
      prefers_groupColon (groups g List.mem_cons_self) before _
    have later := ih (fun other member => groups other (.tail g member))
      ((g ++ [':']).getLast?.or before)
    have whole := Prefers.star_cons (by simp) round later
    rwa [List.append_assoc, List.singleton_append, ← ended_cons] at whole

theorem fails_colonGroup (stops : Stops rest) : Fails isWord colonGroup before rest := by
  intro m member
  have text := runs_spec colonGroup before rest m member
  obtain ⟨_, v, first, second, taken⟩ := takes_of_mem_runs m member
  obtain rfl := takes_char.mp first
  obtain ⟨c, cs, rfl, digit⟩ := (takes_hexGroup.mp second).exists_cons
  rw [taken] at text
  have noDigit := stops.colon c (cs ++ m.rest) text.symm
  rw [digit] at noDigit
  contradiction

theorem prefers_star_colonGroup (groups : ∀ h ∈ hs, IsGroup h) (stops : Stops rest)
    (before : Option Char) :
    Prefers isWord (star colonGroup) before (begun ':' hs) rest := by
  induction hs generalizing before with
  | nil => exact .star_nil (fails_colonGroup stops)
  | cons h hs ih =>
    have next : ∀ c, (begun ':' hs ++ rest).head? = some c → isAsciiHexdigit c = false := by
      cases hs with
      | nil => exact stops.digit
      | cons h' hs => exact stops_colon _
    have round : Prefers isWord colonGroup before (':' :: h) (begun ':' hs ++ rest) :=
      prefers_colonGroup (groups h List.mem_cons_self) next
    have later := ih (fun other member => groups other (.tail h member))
      ((':' :: h).getLast?.or before)
    have whole := Prefers.star_cons (by simp) round later
    rwa [List.cons_append, ← begun_cons] at whole

/-- The groups before the two colons. -/
theorem prefers_short_left {next : Regex} {v : Text} (groups : ∀ g ∈ gs, IsGroup g)
    (nonempty : gs ≠ [])
    (here : Prefers isWord next (some ':') v rest) (before : Option Char) :
    Prefers isWord
      (seq hexGroup (seq (char ':') (seq (star groupColon) (seq (char ':') next)))) before
      (ended ':' gs ++ ':' :: v) rest := by
  obtain ⟨g, gs, rfl⟩ := List.exists_cons_of_ne_nil nonempty
  have second {last : Option Char} : Prefers isWord (seq (char ':') next) last ([':'] ++ v) rest :=
    Prefers.seq (.set (by decide)) here
  have rounds {last : Option Char} : Prefers isWord (star groupColon) last (ended ':' gs)
      ([':'] ++ v ++ rest) :=
    prefers_star_groupColon (fun other member => groups other (.tail g member)) last (v ++ rest)
  have first {last : Option Char} : Prefers isWord
      (seq (char ':') (seq (star groupColon) (seq (char ':') next))) last
      ([':'] ++ (ended ':' gs ++ ([':'] ++ v))) rest :=
    Prefers.seq (.set (by decide)) (rounds.seq second)
  have start : Prefers isWord hexGroup before g ([':'] ++ (ended ':' gs ++ ([':'] ++ v)) ++ rest) :=
    prefers_hexGroup (groups g List.mem_cons_self) (stops_colon _)
  have whole := start.seq first
  simpa using whole

theorem opens_ended (groups : ∀ g ∈ gs, IsGroup g) (nonempty : gs ≠ [])
    (outer : before.any classes.isWord = false) (t : Text) :
    before.any classes.isWord ≠ (ended ':' gs ++ t).head?.any classes.isWord := by
  obtain ⟨g, gs, rfl⟩ := List.exists_cons_of_ne_nil nonempty
  obtain ⟨c, cs, rfl, digit⟩ := (groups g List.mem_cons_self).exists_cons
  have word := classes.isWord_of_isAsciiHexdigit digit
  rw [outer]
  simp [word]

/-- Groups around the two colons. -/
theorem prefers_short (groups : ∀ g ∈ gs, IsGroup g) (nonempty : gs ≠ [])
    (groups' : ∀ h ∈ hs, IsGroup h) (nonempty' : hs ≠ [])
    (outer : before.any classes.isWord = false) (outer' : rest.head?.any classes.isWord = false)
    (stops : Stops rest) :
    Prefers classes.isWord (bounded shortParts) before (ended ':' gs ++ ':' :: join ':' hs) rest := by
  have word : ((join ':' hs).getLast?.or (some ':')).any classes.isWord = true :=
    (word_of_join (fun field member c inField =>
      classes.isWord_of_isAsciiHexdigit ((groups' field member).2 c inField)) nonempty'
      (fun field member => (groups' field member).ne_nil) (some ':') rest).2
  obtain ⟨h, hs, rfl⟩ := List.exists_cons_of_ne_nil nonempty'
  have next : ∀ c, (begun ':' hs ++ rest).head? = some c → isAsciiHexdigit c = false := by
    cases hs with
    | nil => exact stops.digit
    | cons h' hs => exact stops_colon _
  have first : Prefers classes.isWord hexGroup (some ':') h (begun ':' hs ++ rest) :=
    prefers_hexGroup (groups' h List.mem_cons_self) next
  have others : Prefers classes.isWord (star colonGroup) (h.getLast?.or (some ':'))
      (begun ':' hs) rest :=
    prefers_star_colonGroup (fun other member => groups' other (.tail h member)) stops _
  have optional : Prefers classes.isWord (opt (seq hexGroup (star colonGroup))) (some ':')
      (join ':' (h :: hs)) ([] ++ rest) := by
    rw [join_cons]
    exact .alt_left (first.seq others)
  have behind := optional.seq (prefers_boundary (by rw [word, outer']; simp))
  rw [List.append_nil] at behind
  apply Prefers.bounded
  · rw [List.append_assoc]
    exact opens_ended groups nonempty outer _
  · exact prefers_short_left groups nonempty behind before

/-- Groups before the two colons, and a word behind them. -/
theorem prefers_cut (groups : ∀ g ∈ gs, IsGroup g) (nonempty : gs ≠ [])
    (outer : before.any classes.isWord = false) (word : rest.head?.any classes.isWord = true)
    (stops : ∀ c, rest.head? = some c → isAsciiHexdigit c = false) :
    Prefers classes.isWord (bounded shortParts) before (ended ':' gs ++ [':']) rest := by
  have nothing : Prefers classes.isWord (opt (seq hexGroup (star colonGroup))) (some ':') [] rest :=
    .alt_right (Fails.of_head (fun _ => begins_of_hexGroup) stops) .empty
  have behind := nothing.seq
    (prefers_boundary (by rw [word, List.getLast?_nil, Option.none_or]; simp [isWord_colon]))
  apply Prefers.bounded
  · rw [List.append_assoc]
    exact opens_ended groups nonempty outer _
  · exact prefers_short_left groups nonempty behind before

/-- An empty field among the first six stops the long form. -/
theorem fails_full {fields : List Text} {tail : Text} (piece : Piece classes ':' fields tail)
    {first others : List Text} (split : fields = first ++ [] :: others) (early : first.length ≤ 5) :
    Fails classes.isWord (bounded fullParts) before (join ':' fields ++ tail) := by
  intro m member
  obtain ⟨pre, gs, post, shape, long, -, groups, left, -⟩ :=
    full_run piece (u := []) (List.nil_append _).symm member
  have noPre : pre = [] := by
    cases pre with
    | nil => rfl
    | cons field pre => simp at left
  rw [noPre, List.nil_append, split, List.append_cons] at shape
  have inGroups : first ++ [[]] <+: gs := by
    apply List.prefix_of_prefix_length_le (List.prefix_append _ others)
    · exact shape ▸ List.prefix_append gs post
    · rw [List.length_append, List.length_singleton]
      omega
  exact (groups [] (inGroups.subset (by simp))).ne_nil rfl

end UcrashReport.Scrub
