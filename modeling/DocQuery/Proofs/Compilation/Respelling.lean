import DocQuery.Proofs.Compilation.Exits
import DocQuery.Proofs.Statement.Respelling
import Mathlib.Logic.Relation

/-! Compilation does not depend on the spelling: statements that are written with and without the
short forms compile to the same query or fail with the same kind of error. -/
namespace DocQuery.NativeQuery

open Relation (ReflTransGen)

/-- Whatever is respelled one after the other, the statement that is read stays the same. -/
theorem toOption_ofJson_respelled {v w : Json} (h : ReflTransGen Json.Respelled v w) :
    (Statement.ofJson w).toOption = (Statement.ofJson v).toOption := by
  induction h with
  | refl => rfl
  | tail _ hstep ih => rw [Statement.ofJson_respelled hstep, ih]

/-- All spellings are read as one statement, if as any, and have the same outcome: the same query, or
the same kind of error. -/
theorem compile_respelled {v w : Json} (context : Option Json)
    (h : ReflTransGen Json.Respelled v w) :
    (∀ s, v.States s ↔ w.States s) ∧
      (compile v context).outcome = (compile w context).outcome := by
  have hread := toOption_ofJson_respelled h
  constructor
  · intro s
    have hok : Statement.ofJson v = .ok s ↔ Statement.ofJson w = .ok s := by
      rw [← toOption_eq_some_iff, ← toOption_eq_some_iff, hread]
    rw [Json.States, Json.States, hok]
  · have hmap : (Statement.ofJson w).toOption = (Statement.ofJson v).toOption.map id := by
      rw [hread, Option.map_id, id]
    unfold compile
    cases Dictionary.ofArgument context with
    | error e => rfl
    | ok context =>
      simp only [outcome_exit]
      exact (view_ofJson_eq id hmap (fun _ => Iff.rfl) fun _ _ => rfl).symm

/-- A find with a projection at the top level. -/
def namedFind (clauses : Entries Json) : Json :=
  .object [("using", .string "logs"), ("select", .array [.string "host"]),
    ("criteria", .object clauses)]

/-- An attribute among the nodes of an alternative. -/
def levelOrHost (levels : Json) : Json :=
  .object [("or", .array [.object [("level", levels)], .object [("host", .null)]])]

def byTime (direction : Json) : Json := .array [.object [("time", direction)]]

def warn : Json := .array [.string "warn"]

def newestFirst : Json := .number (.ofInt32 (-1))

/-- An array under an attribute, a direction as a number, and a star below the projection. -/
def shortFind : Json :=
  namedFind [("where", levelOrHost warn), ("sort", byTime newestFirst),
    ("select", .array [.string "*"])]

def longFind : Json :=
  .object [("using", .string "logs"), ("criteria", .object [
    ("where", levelOrHost (.object [("in", warn)])), ("sort", byTime (.string "Desc")),
    ("select", .array [.string "host"])])]

theorem shortFind_respelled : ReflTransGen Json.Respelled shortFind longFind ∧
    (∀ s, shortFind.States s ↔ longFind.States s) ∧
      (compile shortFind none).outcome = (compile longFind none).outcome := by
  have hstep : ∀ clauses clauses', (Json.object clauses).CriteriaRespelled (.object clauses') →
      (namedFind clauses).Respelled (namedFind clauses') :=
    fun clauses clauses' h => .criteria rfl h (Entries.changed_insert _ _ _)
  have hnode : (levelOrHost warn).NodeRespelled (levelOrHost (.object [("in", warn)])) :=
    @Json.NodeRespelled.child [] [] "or" [] _ _ _ (.inr rfl)
      (@Json.NodeRespelled.membership [] [] "level" _ (by decide))
  have hdirection : newestFirst.DirectionRespelled (.string "Desc") :=
    .descending (by decide) (by decide)
  have hwhere : shortFind.Respelled (namedFind [("where", levelOrHost (.object [("in", warn)])),
      ("sort", byTime newestFirst), ("select", .array [.string "*"])]) :=
    hstep _ _ (.node rfl hnode (Entries.changed_insert _ _ _))
  have hsort := hstep
    [("where", levelOrHost (.object [("in", warn)])), ("sort", byTime newestFirst),
      ("select", .array [.string "*"])]
    [("where", levelOrHost (.object [("in", warn)])), ("sort", byTime (.string "Desc")),
      ("select", .array [.string "*"])]
    (@Json.CriteriaRespelled.direction _ _ [] [] [] [] "time" _ _ rfl hdirection
      (Entries.changed_insert _ _ _))
  have hstar := hstep
    [("where", levelOrHost (.object [("in", warn)])), ("sort", byTime (.string "Desc")),
      ("select", .array [.string "*"])]
    [("where", levelOrHost (.object [("in", warn)])), ("sort", byTime (.string "Desc"))]
    (.fullSelect rfl ⟨["*"], rfl, by simp⟩ (Entries.changed_erase _ _))
  have hselect : (namedFind [("where", levelOrHost (.object [("in", warn)])),
      ("sort", byTime (.string "Desc"))]).Respelled longFind :=
    .projection (by decide) rfl rfl rfl (Entries.changed_insert _ _ _) (Entries.changed_erase _ _)
      (Entries.changed_insert _ _ _)
  have hsteps : ReflTransGen Json.Respelled shortFind longFind :=
    .tail (.tail (.tail (.single hwhere) hsort) hstar) hselect
  exact ⟨hsteps, compile_respelled none hsteps⟩

end DocQuery.NativeQuery
