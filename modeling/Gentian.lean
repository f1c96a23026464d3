import Gentian.Arbiter.Agreement
import Gentian.Arbiter.Memberships
import Gentian.Authz.Withdrawal
import Gentian.Bouncer.Question
import Gentian.Component.Requests
import Gentian.Custodian.Handlers
import Gentian.Edge.Rows
import Gentian.Export.Paused
import Gentian.Export.Staging
import Gentian.Gitops.Approvals
import Gentian.Gitops.Linear
import Gentian.Gitops.Residue
import Gentian.Gitops.Tenancy
import Gentian.Membership.Replay
import Gentian.Membership.Sequential
import Gentian.Placement.Decide
import Gentian.Profilebundle.Companions
import Gentian.Profilebundle.Owned
import Gentian.Profilebundle.Verify
import Gentian.Resourceplan.Catalogue
import Gentian.Restore.OwnStores
import Gentian.Restore.Survive
import Gentian.Schemacheck.Pruned
import Gentian.Secrets.PurgeTree
import Gentian.Secrets.Seeder
import Gentian.Security.ApiExtensions
import Gentian.Usage.Report
