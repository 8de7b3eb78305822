import AttributeCss.FileTree
import AttributeCss.Options.Document
import AttributeCss.Session.Basic
import AttributeCss.Session.Handle
import AttributeCss.Trace.Monitor
import AttributeCss.Proofs.Registry.Coverage
import AttributeCss.Proofs.Session.MergeOrder
import AttributeCss.Proofs.Session.Rescan
import AttributeCss.Proofs.Session.Settled
import AttributeCss.Proofs.Session.Keyed
import AttributeCss.Proofs.Session.Resumption
import AttributeCss.Proofs.Session.Failure
import AttributeCss.Proofs.Session.Slots
import AttributeCss.Proofs.Session.Interleaving
import AttributeCss.Proofs.Session.Selection
import AttributeCss.Proofs.Markup.Refolded
import AttributeCss.Proofs.Rule.Disjoint
import AttributeCss.Proofs.Markup.RoundTrip
import AttributeCss.Proofs.Snapshot.Stored
import AttributeCss.Proofs.Stylesheet.Spelling
import AttributeCss.Proofs.Session.Confined
import AttributeCss.Proofs.Markup.Placed
import AttributeCss.Proofs.Rule.Answered
import AttributeCss.Proofs.Session.PseudoClass
import AttributeCss.Proofs.Markup.Erased
import AttributeCss.Proofs.Markup.Bound
import AttributeCss.Proofs.Stylesheet.Segment
import AttributeCss.Proofs.Css.Kinds
import AttributeCss.Proofs.Session.Identifiers
import AttributeCss.Proofs.Stylesheet.Overlap
import AttributeCss.Proofs.Stylesheet.Layout
import AttributeCss.Proofs.Rule.Amounts
import AttributeCss.Proofs.Rule.Shades
import AttributeCss.Proofs.Rule.ShortNames
import AttributeCss.Proofs.Markup.Enclosed
import AttributeCss.Proofs.Markup.LongForm
import AttributeCss.Proofs.Options.Given
import AttributeCss.Proofs.Diagnostic.Exchanged
import AttributeCss.Proofs.Vocabulary.Compiled
import AttributeCss.Proofs.Trace.Listed
