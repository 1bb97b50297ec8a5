import RouteDocs.Main
import RouteDocs.Proofs.DefinitionList.Decomposition
import RouteDocs.Proofs.DefinitionList.Terms
import RouteDocs.Proofs.DefinitionList.Merge
import RouteDocs.Proofs.DefinitionList.Repeat
import RouteDocs.Proofs.DefinitionList.Union
import RouteDocs.Proofs.Page
import RouteDocs.Proofs.Catalog
import RouteDocs.Proofs.Draft
import RouteDocs.Proofs.Directive.Blocks
import RouteDocs.Proofs.Directive.Coherent
import RouteDocs.Proofs.Directive.Section
import RouteDocs.Proofs.Html.Markup
import RouteDocs.Proofs.Html.Target
import RouteDocs.Proofs.Session.Agreement
import RouteDocs.Proofs.Session.Sidebar
import RouteDocs.Proofs.Session.Bundle
import RouteDocs.Proofs.Directive.Errand
import RouteDocs.Proofs.Directive.Grown
import RouteDocs.Proofs.Directive.TwoPhase
import RouteDocs.Proofs.Directive.Terms
import RouteDocs.Proofs.Directive.Nested
import RouteDocs.Proofs.Directive.Interleaving
import RouteDocs.Proofs.Directive.Modes
import RouteDocs.Proofs.Dump
import RouteDocs.Proofs.Html.Visible
import RouteDocs.Proofs.Html.Layout
import RouteDocs.Proofs.Html.Walk
import RouteDocs.Proofs.Html.Shift
import RouteDocs.Proofs.Html.Desk
import RouteDocs.Proofs.Fragments
import RouteDocs.Proofs.Session.Partition
import RouteDocs.Proofs.Ledger
import RouteDocs.Proofs.Session.Holders
import RouteDocs.Proofs.Session.Stability
import RouteDocs.Proofs.NestedLists
import RouteDocs.Proofs.Styling
import RouteDocs.Proofs.Session.Recovery
import RouteDocs.Proofs.Allocation.Requests
import RouteDocs.Proofs.Repair
import RouteDocs.Proofs.RepairOrder
import RouteDocs.Proofs.Html.NavigationIndex
import RouteDocs.Proofs.Row.Mend
import RouteDocs.Proofs.Row.InputFirst
import RouteDocs.Proofs.Directive.Excision
import RouteDocs.Proofs.Styling.Nested
import RouteDocs.Proofs.DefinitionList.SelfMerge
import RouteDocs.Proofs.DefinitionList.Commute
import RouteDocs.Proofs.Identifier.Stable
import RouteDocs.Proofs.Directive.Attempts
import RouteDocs.Proofs.ModuleName
import RouteDocs.Proofs.Session.DocumentTarget
import RouteDocs.Proofs.Html.ModuleLink
import RouteDocs.Proofs.Config.Acceptance
import RouteDocs.Proofs.TreeFile.Acceptance
import RouteDocs.Proofs.Html.OpeningTag
import RouteDocs.Proofs.Search
