import FlowSketch.Proofs.Metrics.Figures
import FlowSketch.Proofs.Text.Words

/-!
# Calls of an enclosing function by its name

A call is looked up without `this->` in front of its name and without template arguments behind it.
The names of the functions around it are taken as they are. So a call by the very name of a function
around it is seen to be recursive, unless the name itself reads like one of those two forms: a
function `operator<=>` is looked up as `operator`.

* `Metrics.IsPlain` — a name that reads like neither.
* `Metrics.SeesSelfCalls` — a call by that name of a function around it is always seen.

Results:

* `Metrics.callee_eq_self`, `Metrics.length_callee_lt`: a plain name is looked up as it is, any
  other by a shorter name.
* `Metrics.seesSelfCalls_iff`: the names whose calls are always seen are the plain ones.
-/

namespace FlowSketch

namespace Metrics

/-! ## Looked-up names -/

/-- A name that neither begins with `this->` nor ends with something between `<` and `>`. -/
def IsPlain (name : String) : Prop :=
  ¬"this->".toList.isPrefixOf name.toList = true ∧
    ¬(name.toList.getLast? = some '>' ∧ '<' ∈ name.toList)

instance (name : String) : Decidable (IsPlain name) := inferInstanceAs (Decidable (_ ∧ _))

theorem length_dropTemplate_le (name : List Char) : (dropTemplate name).length ≤ name.length := by
  unfold dropTemplate
  split_ifs
  · exact ((Text.trim_sublist _).trans (List.takeWhile_sublist _)).length_le
  · exact le_rfl

/-- Taking off `this->` makes a name shorter. -/
theorem length_dropThis_lt {name : List Char} (h : "this->".toList.isPrefixOf name = true) :
    (dropThis name).length < name.length := by
  have hlength : 6 ≤ name.length := (List.isPrefixOf_iff_prefix.1 h).length_le
  have htrim := (Text.trim_sublist (name.drop 6)).length_le
  rw [List.length_drop] at htrim
  rw [dropThis, if_pos h]
  omega

/-- What is left of a name without its template arguments is shorter and has no opening bracket. -/
theorem dropTemplate_of_template {name : List Char}
    (h : name.getLast? = some '>' ∧ '<' ∈ name) :
    (dropTemplate name).length < name.length ∧ '<' ∉ dropTemplate name := by
  have hfront : '<' ∉ name.takeWhile (· ≠ '<') := fun hmem => by
    simpa using List.mem_takeWhile_imp hmem
  have htrim := Text.trim_sublist (name.takeWhile (· ≠ '<'))
  rw [dropTemplate, if_pos h]
  refine ⟨htrim.length_le.trans_lt (lt_of_le_of_ne ?_ ?_), fun hmem => hfront (htrim.subset hmem)⟩
  · exact (List.takeWhile_sublist _).length_le
  · intro hlength
    rw [(List.takeWhile_prefix _).eq_of_length hlength] at hfront
    exact hfront h.2

variable {name : String}

theorem toList_callee (htrim : Text.strip name = name) :
    (callee name).toList = dropTemplate (dropThis name.toList) := by
  rw [callee, String.toList_ofList, ← String.toList_ofList (l := Text.trim name.toList)]
  show dropTemplate (dropThis (Text.strip name).toList) = _
  rw [htrim]

/-- A plain name is looked up as it is. -/
theorem callee_eq_self (htrim : Text.strip name = name) (h : IsPlain name) :
    callee name = name := by
  rw [← String.toList_inj, toList_callee htrim, dropThis, if_neg h.1, dropTemplate, if_neg h.2]

theorem hasTemplate_of_not_isPlain (h : ¬IsPlain name)
    (hthis : ¬"this->".toList.isPrefixOf name.toList = true) :
    name.toList.getLast? = some '>' ∧ '<' ∈ name.toList := by
  by_contra htemplate
  exact h ⟨hthis, htemplate⟩

/-- A name that is not plain is looked up by a shorter one. -/
theorem length_callee_lt (htrim : Text.strip name = name) (h : ¬IsPlain name) :
    (callee name).toList.length < name.toList.length := by
  rw [toList_callee htrim]
  by_cases hthis : "this->".toList.isPrefixOf name.toList = true
  · exact (length_dropTemplate_le _).trans_lt (length_dropThis_lt hthis)
  · rw [dropThis, if_neg hthis]
    exact (dropTemplate_of_template (hasTemplate_of_not_isPlain h hthis)).1

/-- A qualified function with the looked-up name has another name than the one called. -/
theorem colons_append_callee_ne (htrim : Text.strip name = name) (h : ¬IsPlain name) :
    "::" ++ callee name ≠ name := by
  intro heq
  have hlist : ':' :: ':' :: dropTemplate (dropThis name.toList) = name.toList := by
    have hcolons := congrArg String.toList heq
    rwa [String.toList_append, toList_callee htrim] at hcolons
  have hthis : ¬"this->".toList.isPrefixOf name.toList = true := by
    rw [← hlist]
    simp
  have htemplate := hasTemplate_of_not_isPlain h hthis
  -- the bracket would have to be in what is left without the template arguments
  have hleft := (dropTemplate_of_template htemplate).2
  have hbracket := htemplate.2
  rw [dropThis, if_neg hthis] at hlist
  rw [← hlist] at hbracket
  exact hleft (by simpa using hbracket)

/-! ## Calls that are seen -/

/-- Wherever a call has the name of a function around it, the innermost function around it that has
    this name, qualified or not, is among the recursive ones; so there is at least one. -/
def SeesSelfCalls (name : String) : Prop :=
  ∀ (root : Ast) (above : List Ast) (n : Ast), root.Leads above n → n.callName? = some name →
    name ∈ above.filterMap Ast.functionName? →
      (∃ function, (above.filterMap Ast.functionName?).reverse.find? (refersTo name) =
          some function ∧ function ∈ (survey root).recursive) ∧
        ∀ source m, (analyze (some root) source).outcome = .ok m → 1 ≤ m.recursion

theorem mem_recursive_survey {root : Ast} {function : String} :
    function ∈ (survey root).recursive ↔
      ∃ above n, root.Leads above n ∧ Place.recursion? ⟨above, n⟩ = some function := by
  rw [recursive_survey, List.mem_eraseDups, List.mem_filterMap]
  constructor
  · rintro ⟨⟨above, n⟩, hp, hrecursion⟩
    exact ⟨above, n, Ast.mem_places_iff.1 hp, hrecursion⟩
  · rintro ⟨above, n, hn, hrecursion⟩
    exact ⟨⟨above, n⟩, Ast.mem_places_iff.2 hn, hrecursion⟩

theorem refersTo_self (name : String) : refersTo name name = true := by
  rw [refersTo, beq_self_eq_true, Bool.true_or]

/-- A name that is looked up as it is finds the function of that name. -/
theorem seesSelfCalls_of_callee (h : callee name = name) : SeesSelfCalls name := by
  intro root above n hn hcall hmem
  obtain ⟨function, hfind⟩ : ∃ function,
      (above.filterMap Ast.functionName?).reverse.find? (refersTo name) = some function := by
    rw [← Option.isSome_iff_exists, List.find?_isSome]
    exact ⟨name, List.mem_reverse.2 hmem, refersTo_self name⟩
  have hrecursive : function ∈ (survey root).recursive := by
    refine mem_recursive_survey.2 ⟨above, n, hn, ?_⟩
    rw [Place.recursion?, hcall, Option.bind_some, target?, h]
    exact hfind
  refine ⟨⟨function, hfind, hrecursive⟩, fun source m hm => ?_⟩
  obtain ⟨-, htally⟩ := analyze_eq_ok hm
  obtain ⟨_, _, -, rfl⟩ := ofTally_eq_ok htally
  exact List.length_pos_of_mem hrecursive

section Shadowed

variable (name)

/-- A call by a name. -/
def namedCall : Ast where
  kind := .call
  name := some name

/-- The call inside a function that has the looked-up name, qualified. -/
def shadow : Ast where
  kind := .functionDef
  name := some ("::" ++ callee name)
  children := [namedCall name]

/-- All this inside a function that has the name of the call. -/
def shadowed : Ast where
  kind := .functionDef
  name := some name
  children := [shadow name]

theorem leads_shadowed : (shadowed name).Leads [shadowed name, shadow name] (namedCall name) := by
  have hshadow : (shadowed name).Leads ([] ++ [shadowed name]) (shadow name) :=
    Ast.Leads.root.child (List.mem_singleton_self _)
  exact hshadow.child (List.mem_singleton_self _)

variable {name}

theorem properName?_of_ne {n : Ast} (hname : n.name = some name) (hne : name ≠ "") :
    n.properName? = some name := by
  rw [Ast.properName?, hname, Option.filter_some]
  simp [hne]

theorem functionName?_of_ne {n : Ast} (hk : n.kind = .functionDef) (hname : n.name = some name)
    (hne : name ≠ "") : n.functionName? = some name := by
  rw [Ast.functionName?, if_pos hk, properName?_of_ne hname hne]

theorem callName?_namedCall (hne : name ≠ "") : (namedCall name).callName? = some name := by
  have hk : (namedCall name).kind = .call := rfl
  rw [Ast.callName?, if_pos hk, properName?_of_ne rfl hne]

theorem around_shadowed (hne : name ≠ "") :
    [shadowed name, shadow name].filterMap Ast.functionName? = [name, "::" ++ callee name] := by
  have houter : (shadowed name).functionName? = some name := functionName?_of_ne rfl rfl hne
  have hinner : (shadow name).functionName? = some ("::" ++ callee name) :=
    functionName?_of_ne rfl rfl (by simp)
  rw [List.filterMap_cons_some houter, List.filterMap_cons_some hinner, List.filterMap_nil]

/-- The call is taken for the function that is nearest to it. -/
theorem recursive_shadowed (hne : name ≠ "") :
    (survey (shadowed name)).recursive = ["::" ++ callee name] := by
  have hnear : refersTo (callee name) ("::" ++ callee name) = true := by
    simp [refersTo]
  have hplace : Place.recursion? ⟨[shadowed name, shadow name], namedCall name⟩ =
      some ("::" ++ callee name) := by
    rw [Place.recursion?, callName?_namedCall hne, Option.bind_some, Place.around,
      around_shadowed hne, target?]
    exact List.find?_cons_of_pos hnear
  have hplaces : (shadowed name).places [] = [⟨[], shadowed name⟩, ⟨[shadowed name], shadow name⟩,
      ⟨[shadowed name, shadow name], namedCall name⟩] := rfl
  rw [recursive_survey, hplaces, List.filterMap_cons_none rfl, List.filterMap_cons_none rfl,
    List.filterMap_cons_some hplace, List.filterMap_nil]
  rfl

end Shadowed

/-- A name that is looked up by a shorter one can be shadowed. -/
theorem isPlain_of_seesSelfCalls (htrim : Text.strip name = name) (h : SeesSelfCalls name) :
    IsPlain name := by
  by_contra hplain
  have hne : name ≠ "" := by
    rintro rfl
    exact hplain (by decide)
  have hfar : refersTo name ("::" ++ callee name) = false := by
    rw [refersTo, Bool.or_eq_false_iff, beq_eq_false_iff_ne, Bool.eq_false_iff]
    refine ⟨(colons_append_callee_ne htrim hplain).symm, fun hsuffix => ?_⟩
    have hlength := (List.isSuffixOf_iff_suffix.1 hsuffix).length_le
    have hshorter := length_callee_lt htrim hplain
    simp only [String.toList_append, List.length_append] at hlength
    omega
  -- of the two functions around the call only the outer one has its name
  obtain ⟨⟨function, hfind, hrecursive⟩, -⟩ := h _ _ _ (leads_shadowed name)
    (callName?_namedCall hne) (by rw [around_shadowed hne]; exact List.mem_cons_self)
  have hname : [name, "::" ++ callee name].reverse.find? (refersTo name) = some name := by
    show ["::" ++ callee name, name].find? (refersTo name) = some name
    rw [List.find?_cons_of_neg (by simp [hfar]), List.find?_cons_of_pos (refersTo_self name)]
  rw [around_shadowed hne, hname, Option.some.injEq] at hfind
  rw [recursive_shadowed hne, List.mem_singleton, ← hfind] at hrecursive
  exact colons_append_callee_ne htrim hplain hrecursive.symm

/-- The calls that are always seen are those by plain names: each of them finds the innermost
    function around it that has its name, in every tree. -/
theorem seesSelfCalls_iff (htrim : Text.strip name = name) :
    SeesSelfCalls name ↔ IsPlain name := by
  constructor
  · exact isPlain_of_seesSelfCalls htrim
  · exact fun h => seesSelfCalls_of_callee (callee_eq_self htrim h)

/-- The function `list::walk`, which calls `walk`, inside another function `walk`. -/
def listWalk : Ast where
  kind := .functionDef
  name := some "walk"
  children := [
    { kind := .functionDef
      name := some "list::walk"
      children := [namedCall "walk"] }]

/-- The inner function is the one that is found. -/
theorem seesSelfCalls_walk : Text.strip "walk" = "walk" ∧ IsPlain "walk" ∧
    "list::walk" ∈ (survey listWalk).recursive ∧
      ∀ source m, (analyze (some listWalk) source).outcome = .ok m → 1 ≤ m.recursion := by
  have htrim : Text.strip "walk" = "walk" := by decide
  have hplain : IsPlain "walk" := by decide
  have hleads : listWalk.Leads ([] ++ [listWalk] ++ listWalk.children) (namedCall "walk") :=
    (Ast.Leads.root.child (List.mem_singleton_self _)).child (List.mem_singleton_self _)
  obtain ⟨⟨function, hfind, hrecursive⟩, hcount⟩ :=
    (seesSelfCalls_iff htrim).2 hplain _ _ _ hleads rfl (by decide)
  obtain rfl : "list::walk" = function := Option.some.inj hfind
  exact ⟨htrim, hplain, hrecursive, hcount⟩

/-- The call `A::operator<=>(b)`. -/
def spaceshipCall : Ast where
  kind := .call
  text := "A::operator<=>(b)"
  name := some "A::operator<=>"
  line := 1

/-- The function `A::operator<=>`, which returns what it gets from itself. -/
def spaceship : Ast where
  kind := .functionDef
  text := "auto A::operator<=>(A b) \x7b return A::operator<=>(b); \x7d"
  name := some "A::operator<=>"
  line := 1
  children := [
    { kind := .returnStmt
      text := "return A::operator<=>(b);"
      line := 1
      children := [spaceshipCall] }]

/-- The call is looked up by the name `A::operator`, and no recursion is seen. -/
theorem recursion_spaceship :
    Text.strip "A::operator<=>" = "A::operator<=>" ∧
      (∃ above, spaceship.Leads above spaceshipCall ∧
        spaceshipCall.callName? = some "A::operator<=>" ∧
          "A::operator<=>" ∈ above.filterMap Ast.functionName?) ∧
      ∃ m, (analyze (some spaceship) spaceship.text).outcome = .ok m ∧
        m.recursive = [] ∧ m.recursion = 0 ∧ m.score = 100 := by
  have hleads : spaceship.Leads ([] ++ [spaceship] ++ spaceship.children) spaceshipCall :=
    (Ast.Leads.root.child (List.mem_singleton_self _)).child (List.mem_singleton_self _)
  have hm : (analyze (some spaceship) spaceship.text).outcome =
      .ok { lines := 1, functions := 1, loops := 0, nested := 0, recursion := 0
            conditionals := 0, complexity := .constant, score := 100
            insights := [], recursive := [] } := by
    simp only [analyze, survey_eq_seen]
    decide +kernel
  exact ⟨by decide, ⟨_, hleads, rfl, by decide⟩, _, hm, rfl, rfl, rfl⟩

end Metrics

end FlowSketch
