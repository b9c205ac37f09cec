import TaxonomySet.Main
import TaxonomySet.Proofs.Derivation
import TaxonomySet.Proofs.Dimension.Arrival
import TaxonomySet.Proofs.Dimension.Courses
import TaxonomySet.Proofs.Dimension.Indexing
import TaxonomySet.Proofs.Dimension.Listing
import TaxonomySet.Proofs.Dimension.Redirection
import TaxonomySet.Proofs.Dimension.Resolution
import TaxonomySet.Proofs.Dimension.Validation
import TaxonomySet.Proofs.Discovery.EntryOrder
import TaxonomySet.Proofs.Discovery.Ids
import TaxonomySet.Proofs.Discovery.Normality
import TaxonomySet.Proofs.Discovery.OwnTables
import TaxonomySet.Proofs.Discovery.Storage
import TaxonomySet.Proofs.Label
import TaxonomySet.Proofs.Link.Canonical
import TaxonomySet.Proofs.Location.Reference
import TaxonomySet.Proofs.Markup.Prefixes
import TaxonomySet.Proofs.Memo.Race
import TaxonomySet.Proofs.Relationship.Priority
import TaxonomySet.Proofs.Relationship.Unresolved
import TaxonomySet.Proofs.Role.Converging
import TaxonomySet.Proofs.Role.Declaring
import TaxonomySet.Proofs.Schema.Bases
import TaxonomySet.Proofs.Session.History
import TaxonomySet.Proofs.Session.Reload
import TaxonomySet.Proofs.Session.Reporting
import TaxonomySet.Proofs.Snapshot.Capture
import TaxonomySet.Proofs.Snapshot.Records
import TaxonomySet.Proofs.Snapshot.RoundTrip
import TaxonomySet.Store.Shelf
