import ThemeMigration.Proofs.Migration.BoundBeforeUse
import ThemeMigration.Proofs.Script.Words
import ThemeMigration.Proofs.TokenTable.Overriding

/-!
# The default tokens and the binding

The expressions of the default table all begin with the name `theme`, and are written as they stand
in the table.  The name that a component binds is a setting of its own.  So with the default table
the expressions refer to the binding of their component exactly if this setting is left at `theme`;
under any other name the project has to give expressions for its colours itself.
-/

namespace ThemeMigration

open Script SyntaxTree

namespace Migration

/-- The name that an expression begins with. -/
def leadingName? (language : Language) (expression : String) : Option String :=
  match (Cursor.ofText language expression).token with
  | .word w => some w
  | _ => none

/-- A name in front of a character that names have not is the first word. -/
theorem leadingName?_eq {name expression : String} (isName : Config.isName name = true)
    {rest : List Char} (ends : EndsWord rest) (chars : expression.toList = name.toList ++ rest)
    (language : Language) : leadingName? language expression = some name := by
  have size := length_le_size expression
  rw [chars, List.length_append] at size
  have start : Cursor.ofText language expression = .resume language (expression.utf8ByteSize + 1)
      [] (List.replicate 0 ' ' ++ (name.toList ++ rest)) 0 := by
    rw [Cursor.ofText, chars]
    rfl
  rw [leadingName?, start, (meets_name 0 name isName ends (by omega)).token]

/-- All expressions of the default table begin with the same name. -/
theorem leadingName?_default {e : String × String} (member : e ∈ TokenTable.defaultEntries)
    (language : Language) : leadingName? language e.2 = some "theme" := by
  have prefixes : (TokenTable.defaultEntries.map fun e => e.2.toList).all
      (fun cs => "theme.".toList.isPrefixOf cs) = true := by
    simp only [TokenTable.defaultEntries, List.map_cons, List.map_nil, String.reduceToList]
    decide +kernel
  have inTable := List.all_eq_true.1 prefixes _ (List.mem_map_of_mem member)
  rcases List.isPrefixOf_iff_prefix.1 inTable with ⟨rest, split⟩
  have chars : e.2.toList = "theme".toList ++ '.' :: rest := split.symm
  exact leadingName?_eq (by decide) (endsWord_cons (by decide) rest) chars language

/-- The binding statement of a changed component declares a name: the declarator that counts as the
binding in a component that has one already, and otherwise the statement that is put in. -/
inductive BindingDeclares (m : Migration) (file : SourceFile) (r : Recoloring) (name : String) :
    Prop
  | existing {d n : SyntaxTree} : r.component.hasBinding = true →
      (m.binding (m.imports file)).declarator? file.text r.component.body = some d →
      d.part? .name = some n → n.text file.text = name → BindingDeclares m file r name
  | inserted {offset : Nat} {front back callee : String} : r.component.hasBinding = false →
      (r.component.insertion file.text (m.binding (m.imports file))).head? =
        some (.insert offset (front ++ BindingStatement.text ⟨name, callee⟩ ++ back)) →
      .insert offset (front ++ BindingStatement.text ⟨name, callee⟩ ++ back) ∈
        (m.plan file).edits →
      BindingDeclares m file r name

variable {m : Migration} {file : SourceFile} {r : Recoloring}

/-- A changed component binds the name that is set for the binding. -/
theorem Changed.bindingDeclares (changed : Changed m file r) :
    BindingDeclares m file r m.accessor.binding := by
  rcases changed.exists_boundAt with ⟨offset, bound, -⟩
  cases bound with
  | @existing d present found =>
    rcases BindingStatement.declarator?_eq_some_iff.1 found with ⟨t, -, declarator⟩
    have isDeclarator := List.find?_some declarator
    rw [BindingStatement.isDeclarator, BindingStatement.declaratorMatches, Bool.and_eq_true,
      Bool.and_eq_true] at isDeclarator
    have named := isDeclarator.2.1
    cases part : d.part? .name with
    | none =>
      rw [part] at named
      cases named
    | some n =>
      rw [part, Option.map_some, Option.getD_some, BindingStatement.isNamed, Bool.and_eq_true,
        beq_iff_eq, beq_iff_eq] at named
      exact .existing present found part named.2
  | inserted fresh head planned => exact .inserted fresh head planned

/-- What the default table alone gives for a literal is one of its expressions. -/
theorem mem_defaultEntries_of_lookup? {c : Config.Mapping} (only : c.colors.entries = [])
    {l expression : String} (found : (TokenTable.tableOf c).lookup? l = some expression) :
    (TokenTable.normalForm l, expression) ∈ TokenTable.defaultEntries := by
  rw [TokenTable.lookup?_tableOf, only, List.reverse_nil, List.find?_nil, Option.map_none,
    Option.none_or, TokenTable.lookup?_default] at found
  split at found
  · rcases List.lookup_eq_some_iff.1 found with ⟨front, back, split, -⟩
    rw [split]
    exact List.mem_append_right _ List.mem_cons_self
  · cases found

/-- A replacement writes the expression that the table has for the literal. -/
theorem Changed.exists_lookup? (changed : Changed m file r) {e : Edit} (planned : e ∈ r.edits) :
    ∃ l, m.palette.tokens.lookup? l = some e.replacement := by
  rw [changed.edits_eq] at planned
  rcases List.mem_filterMap.1 planned with ⟨l, -, replaced⟩
  rw [PropertyLiteral.edit?] at replaced
  split at replaced
  · rename_i expression verdict
    cases replaced
    refine ⟨unquote (l.literal.text file.text), ?_⟩
    rw [PropertyLiteral.verdict] at verdict
    split at verdict
    · cases verdict
    · split at verdict
      · split at verdict
        · rename_i found
          cases verdict
          exact found
        · cases verdict
      · cases verdict
  · cases replaced

/-- Without entries of the project every expression that is put in for a literal begins with
`theme`, whatever the binding is called, and the binding of its component declares the name that is
set for it.  So the two agree exactly if this name is `theme`. -/
theorem default_tokens_lead (c : Config) (only : c.mapping.colors.entries = []) (root : Path)
    (t : TsConfig) :
    ∃ m, ofConfig c root t = .ok m ∧
      ∀ file, ∀ r ∈ (m.plan file).recolorings, ∀ e ∈ r.edits,
        e ∈ (m.plan file).edits ∧
        leadingName? file.source.language e.replacement = some "theme" ∧
        BindingDeclares m file r c.accessorBinding ∧
        (leadingName? file.source.language e.replacement = some c.accessorBinding ↔
          c.accessorBinding = "theme") := by
  have sound : ∀ e ∈ c.mapping.colors.entries, TokenTable.IsSound e := by
    rw [only]
    exact List.forall_mem_nil _
  rw [ofConfig, TokenTable.ofConfig_eq_ok sound]
  refine ⟨_, rfl, fun file r member e planned => ?_⟩
  have changed := changed_of_mem_edits member planned
  rcases changed.exists_lookup? planned with ⟨l, found⟩
  have leads := leadingName?_default (mem_defaultEntries_of_lookup? only found)
    file.source.language
  refine ⟨?_, leads, changed.bindingDeclares, ?_⟩
  · rw [plan_edits_eq]
    exact List.mem_append_left _ (List.mem_flatMap.2 ⟨r, member, planned⟩)
  · rw [leads, Option.some_inj, eq_comm]

/-- A card whose theme is to be called `t`: it declares `t`, and takes its colour from `theme`. -/
theorem theme_unbound :
    let c : Config := { accessor := { binding := some "t" } }
    c.validate = .ok () ∧ c.includeDefaults = true ∧ c.mapping.colors.entries = [] ∧
      ∃ m file r e, ofConfig c ⟨"/project"⟩ standard.tsconfig = .ok m ∧
        SourceFile.ofText ⟨"/project/src/Card.tsx"⟩
          "function Card()\x7breturn\x7bcolor:'#fff'\x7d\x7d" = .ok file ∧
        r ∈ (m.plan file).recolorings ∧ e ∈ r.edits ∧
        leadingName? file.source.language e.replacement = some "theme" ∧
        BindingDeclares m file r "t" ∧
        m.edited file =
          ("import \x7b useTheme \x7d from '@/theme';\n\n" ++
            "function Card()\x7bconst t = useTheme();\n" ++
            "return\x7bcolor:theme.colors.surface\x7d\x7d") := by
  intro c
  let m : Migration := { standard with accessor := .ofConfig c ⟨"/project"⟩ }
  have facts : (SourceFile.ofText ⟨"/project/src/Card.tsx"⟩
      "function Card()\x7breturn\x7bcolor:'#fff'\x7d\x7d").toOption.any (fun file =>
        m.edited file ==
          ("import \x7b useTheme \x7d from '@/theme';\n\n" ++
            "function Card()\x7bconst t = useTheme();\n" ++
            "return\x7bcolor:theme.colors.surface\x7d\x7d") &&
          (m.plan file).recolorings.any fun r => r.isEffective &&
            r.edits.any fun e =>
              leadingName? file.source.language e.replacement == some "theme") = true := by
    simp only [m]
    rw [standard_eq]
    decide +kernel
  rcases exists_ofText facts with ⟨file, read, holds⟩
  rw [Bool.and_eq_true, beq_iff_eq] at holds
  rcases exists_changed_of_any holds.2 with ⟨r, changed, ofEdit⟩
  rcases List.any_eq_true.1 ofEdit with ⟨e, planned, leads⟩
  have built : ofConfig c ⟨"/project"⟩ standard.tsconfig = .ok m := by
    rw [ofConfig, TokenTable.ofConfig_eq]
    rfl
  exact ⟨by decide, rfl, rfl, m, file, r, e, built, read, changed.member, planned,
    beq_iff_eq.1 leads, changed.bindingDeclares, holds.1⟩

/-- Under the name that is the default a colour refers to the binding that the component had. -/
theorem default_tokens_lead_standard :
    (Config.mapping {}).colors.entries = [] ∧ ∃ file r e,
      SourceFile.ofText ⟨"/project/src/Card.tsx"⟩
        "function Card()\x7bconst theme=useTheme();return\x7bcolor:'#fff'\x7d\x7d" = .ok file ∧
      r.component.hasBinding = true ∧ r ∈ (standard.plan file).recolorings ∧ e ∈ r.edits ∧
      leadingName? file.source.language e.replacement = some (Config.accessorBinding {}) ∧
      BindingDeclares standard file r (Config.accessorBinding {}) := by
  have facts : (SourceFile.ofText ⟨"/project/src/Card.tsx"⟩
      "function Card()\x7bconst theme=useTheme();return\x7bcolor:'#fff'\x7d\x7d").toOption.any
        (fun file => (standard.plan file).recolorings.any fun r => r.isEffective &&
          (r.component.hasBinding && !r.edits.isEmpty)) = true := by
    rw [standard_eq]
    decide +kernel
  rcases exists_ofText facts with ⟨file, read, holds⟩
  rcases exists_changed_of_any holds with ⟨r, changed, holds⟩
  rw [Bool.and_eq_true, Bool.not_eq_true', List.isEmpty_eq_false_iff] at holds
  rcases List.exists_mem_of_ne_nil _ holds.2 with ⟨e, planned⟩
  rcases default_tokens_lead {} rfl ⟨"/project"⟩ standard.tsconfig with ⟨m, built, lead⟩
  cases ofConfig_default.symm.trans built
  rcases lead file r changed.member e planned with ⟨-, -, declares, agree⟩
  exact ⟨rfl, file, r, e, read, holds.1, changed.member, planned, agree.2 rfl, declares⟩

end Migration

end ThemeMigration
