import LoxLang.Main
import LoxLang.Proofs.Scope.Agreement
import LoxLang.Proofs.Renaming.Alike
import LoxLang.Proofs.Renaming.Check
import LoxLang.Proofs.Renaming.Marks
import LoxLang.Proofs.Renaming.Place
import LoxLang.Proofs.Renaming.Runs
import LoxLang.Proofs.Run.Returns
import LoxLang.Proofs.Heap.Reach
import LoxLang.Proofs.Run.Confined
import LoxLang.Proofs.Similar.Numbering
import LoxLang.Proofs.Similar.Parse
import LoxLang.Proofs.Similar.Check
import LoxLang.Proofs.Alike.Machine
import LoxLang.Proofs.Alike.Result
import LoxLang.Proofs.Alike.Session
import LoxLang.Proofs.Session.Answers
import LoxLang.Proofs.Session.Refused
import LoxLang.Proofs.Run.Fuel
import LoxLang.Proofs.Token.Lines
import LoxLang.Proofs.Session.Joined
import LoxLang.Proofs.Run.Finished
import LoxLang.Proofs.Session.Split
import LoxLang.Proofs.Token.Spans
import LoxLang.Proofs.Session.Respaced
import LoxLang.Proofs.Session.Bounded
import LoxLang.Proofs.This.Instance
import LoxLang.Proofs.Session.Gated
import LoxLang.Proofs.Session.Located
import LoxLang.Proofs.Heap.Kept
import LoxLang.Proofs.Scope.Assignments
import LoxLang.Proofs.Token.Longest
import LoxLang.Proofs.Scope.WellScoped
import LoxLang.Proofs.Parse.Containment
import LoxLang.Proofs.Parse.Forward
import LoxLang.Proofs.Parse.Semicolon
import LoxLang.Proofs.Loop.Clauses
import LoxLang.Proofs.Property.Lookup
import LoxLang.Proofs.Token.Local
import LoxLang.Proofs.Parse.InPlace
import LoxLang.Proofs.Print.Unambiguous
import LoxLang.Proofs.Print.Literals
import LoxLang.Proofs.Session.Undisturbed
