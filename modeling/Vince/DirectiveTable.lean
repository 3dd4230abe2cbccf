import Mathlib.Data.List.Basic

/-!
# The directive table (`config_analyze.go`)

The argument and context masks, and the table of the directives known to the program.
The table is shared and mutable in the program; `directives` is its initial content.
-/

namespace DirectiveTable

abbrev Mask := Nat

abbrev Directives := List (String × List Mask)

def ngxConfNoArgs : Mask := 0x1
def ngxConfTake1 : Mask := 0x2
def ngxConfTake2 : Mask := 0x4
def ngxConfTake3 : Mask := 0x8
def ngxConfTake4 : Mask := 0x10
def ngxConfTake5 : Mask := 0x20
def ngxConfTake6 : Mask := 0x40
def ngxConfTake7 : Mask := 0x80
def ngxConfBlock : Mask := 0x100
def ngxConfFlag : Mask := 0x200
def ngxConfAny : Mask := 0x400
def ngxConf1More : Mask := 0x800
def ngxConf2More : Mask := 0x1000
def ngxConfTake12 : Mask := ngxConfTake1 ||| ngxConfTake2
def ngxConfTake23 : Mask := ngxConfTake2 ||| ngxConfTake3
def ngxConfTake123 : Mask := ngxConfTake12 ||| ngxConfTake3
def ngxConfTake1234 : Mask := ngxConfTake123 ||| ngxConfTake4
def ngxDirectConf : Mask := 0x10000
def ngxMainConf : Mask := 0x40000
def ngxEventConf : Mask := 0x80000
def ngxMailMainConf : Mask := 0x100000
def ngxMailSrvConf : Mask := 0x200000
def ngxStreamMainConf : Mask := 0x400000
def ngxStreamSrvConf : Mask := 0x800000
def ngxStreamUpsConf : Mask := 0x1000000
def ngxHttpMainConf : Mask := 0x2000000
def ngxHttpSrvConf : Mask := 0x4000000
def ngxHttpLocConf : Mask := 0x8000000
def ngxHttpUpsConf : Mask := 0x10000000
def ngxHttpSifConf : Mask := 0x20000000
def ngxHttpLifConf : Mask := 0x40000000
def ngxHttpLmtConf : Mask := 0x80000000
def ngxHttpOauth2Conf : Mask := 0x100000000
def ngxAnyConf : Mask :=
  ngxMainConf ||| ngxEventConf ||| ngxMailMainConf ||| ngxMailSrvConf ||| ngxStreamMainConf
  ||| ngxStreamSrvConf ||| ngxStreamUpsConf ||| ngxHttpMainConf ||| ngxHttpSrvConf |||
  ngxHttpLocConf ||| ngxHttpUpsConf ||| ngxHttpOauth2Conf

/-- The blocks of `http` that most of its directives are for. The table of the program has the three
masks in each of its entries. -/
def ngxHttpBlocks : Mask := ngxHttpMainConf ||| ngxHttpSrvConf ||| ngxHttpLocConf

def ngxStreamBlocks : Mask := ngxStreamMainConf ||| ngxStreamSrvConf

def ngxMailBlocks : Mask := ngxMailMainConf ||| ngxMailSrvConf

def directivesAE : Directives := [
  ("absolute_redirect", [ngxHttpBlocks ||| ngxConfFlag]),
  ("accept_mutex", [ngxEventConf ||| ngxConfFlag]),
  ("accept_mutex_delay", [ngxEventConf ||| ngxConfTake1]),
  ("access_log",
    [ngxHttpBlocks ||| ngxHttpLifConf ||| ngxHttpLmtConf ||| ngxConf1More,
     ngxStreamBlocks ||| ngxConf1More]),
  ("add_after_body", [ngxHttpBlocks ||| ngxConfTake1]),
  ("add_before_body", [ngxHttpBlocks ||| ngxConfTake1]),
  ("add_header", [ngxHttpBlocks ||| ngxHttpLifConf ||| ngxConfTake23]),
  ("add_trailer", [ngxHttpBlocks ||| ngxHttpLifConf ||| ngxConfTake23]),
  ("addition_types", [ngxHttpBlocks ||| ngxConf1More]),
  ("aio", [ngxHttpBlocks ||| ngxConfTake1]),
  ("aio_write", [ngxHttpBlocks ||| ngxConfFlag]),
  ("alias", [ngxHttpLocConf ||| ngxConfTake1]),
  ("allow", [ngxHttpBlocks ||| ngxHttpLmtConf ||| ngxConfTake1, ngxStreamBlocks ||| ngxConfTake1]),
  ("ancient_browser", [ngxHttpBlocks ||| ngxConf1More]),
  ("ancient_browser_value", [ngxHttpBlocks ||| ngxConfTake1]),
  ("auth_basic", [ngxHttpBlocks ||| ngxHttpLmtConf ||| ngxConfTake1]),
  ("auth_basic_user_file", [ngxHttpBlocks ||| ngxHttpLmtConf ||| ngxConfTake1]),
  ("auth_http", [ngxMailBlocks ||| ngxConfTake1]),
  ("auth_http_header", [ngxMailBlocks ||| ngxConfTake2]),
  ("auth_http_pass_client_cert", [ngxMailBlocks ||| ngxConfFlag]),
  ("auth_http_timeout", [ngxMailBlocks ||| ngxConfTake1]),
  ("auth_request", [ngxHttpBlocks ||| ngxConfTake1]),
  ("auth_request_set", [ngxHttpBlocks ||| ngxConfTake2]),
  ("autoindex", [ngxHttpBlocks ||| ngxConfFlag]),
  ("autoindex_exact_size", [ngxHttpBlocks ||| ngxConfFlag]),
  ("autoindex_format", [ngxHttpBlocks ||| ngxConfTake1]),
  ("autoindex_localtime", [ngxHttpBlocks ||| ngxConfFlag]),
  ("break",
    [ngxHttpSrvConf ||| ngxHttpSifConf ||| ngxHttpLocConf ||| ngxHttpLifConf ||| ngxConfNoArgs]),
  ("charset", [ngxHttpBlocks ||| ngxHttpLifConf ||| ngxConfTake1]),
  ("charset_map", [ngxHttpMainConf ||| ngxConfBlock ||| ngxConfTake2]),
  ("charset_types", [ngxHttpBlocks ||| ngxConf1More]),
  ("chunked_transfer_encoding", [ngxHttpBlocks ||| ngxConfFlag]),
  ("client_body_buffer_size", [ngxHttpBlocks ||| ngxConfTake1]),
  ("client_body_in_file_only", [ngxHttpBlocks ||| ngxConfTake1]),
  ("client_body_in_single_buffer", [ngxHttpBlocks ||| ngxConfFlag]),
  ("client_body_temp_path", [ngxHttpBlocks ||| ngxConfTake1234]),
  ("client_body_timeout", [ngxHttpBlocks ||| ngxConfTake1]),
  ("client_header_buffer_size", [ngxHttpMainConf ||| ngxHttpSrvConf ||| ngxConfTake1]),
  ("client_header_timeout", [ngxHttpMainConf ||| ngxHttpSrvConf ||| ngxConfTake1]),
  ("client_max_body_size", [ngxHttpBlocks ||| ngxConfTake1]),
  ("connection_pool_size", [ngxHttpMainConf ||| ngxHttpSrvConf ||| ngxConfTake1]),
  ("create_full_put_path", [ngxHttpBlocks ||| ngxConfFlag]),
  ("daemon", [ngxMainConf ||| ngxDirectConf ||| ngxConfFlag]),
  ("dav_access", [ngxHttpBlocks ||| ngxConfTake123]),
  ("dav_methods", [ngxHttpBlocks ||| ngxConf1More]),
  ("debug_connection", [ngxEventConf ||| ngxConfTake1]),
  ("debug_points", [ngxMainConf ||| ngxDirectConf ||| ngxConfTake1]),
  ("default_type", [ngxHttpBlocks ||| ngxConfTake1]),
  ("deny", [ngxHttpBlocks ||| ngxHttpLmtConf ||| ngxConfTake1, ngxStreamBlocks ||| ngxConfTake1]),
  ("directio", [ngxHttpBlocks ||| ngxConfTake1]),
  ("directio_alignment", [ngxHttpBlocks ||| ngxConfTake1]),
  ("disable_symlinks", [ngxHttpBlocks ||| ngxConfTake12]),
  ("empty_gif", [ngxHttpLocConf ||| ngxConfNoArgs]),
  ("env", [ngxMainConf ||| ngxDirectConf ||| ngxConfTake1]),
  ("error_log",
    [ngxMainConf ||| ngxConf1More,
     ngxHttpBlocks ||| ngxConf1More,
     ngxMailBlocks ||| ngxConf1More,
     ngxStreamBlocks ||| ngxConf1More]),
  ("error_page", [ngxHttpBlocks ||| ngxHttpLifConf ||| ngxConf2More]),
  ("etag", [ngxHttpBlocks ||| ngxConfFlag]),
  ("events", [ngxMainConf ||| ngxConfBlock ||| ngxConfNoArgs]),
  ("expires", [ngxHttpBlocks ||| ngxHttpLifConf ||| ngxConfTake12])]

def directivesFG : Directives := [
  ("fastcgi_bind", [ngxHttpBlocks ||| ngxConfTake12]),
  ("fastcgi_buffer_size", [ngxHttpBlocks ||| ngxConfTake1]),
  ("fastcgi_buffering", [ngxHttpBlocks ||| ngxConfFlag]),
  ("fastcgi_buffers", [ngxHttpBlocks ||| ngxConfTake2]),
  ("fastcgi_busy_buffers_size", [ngxHttpBlocks ||| ngxConfTake1]),
  ("fastcgi_cache", [ngxHttpBlocks ||| ngxConfTake1]),
  ("fastcgi_cache_background_update", [ngxHttpBlocks ||| ngxConfFlag]),
  ("fastcgi_cache_bypass", [ngxHttpBlocks ||| ngxConf1More]),
  ("fastcgi_cache_key", [ngxHttpBlocks ||| ngxConfTake1]),
  ("fastcgi_cache_lock", [ngxHttpBlocks ||| ngxConfFlag]),
  ("fastcgi_cache_lock_age", [ngxHttpBlocks ||| ngxConfTake1]),
  ("fastcgi_cache_lock_timeout", [ngxHttpBlocks ||| ngxConfTake1]),
  ("fastcgi_cache_max_range_offset", [ngxHttpBlocks ||| ngxConfTake1]),
  ("fastcgi_cache_methods", [ngxHttpBlocks ||| ngxConf1More]),
  ("fastcgi_cache_min_uses", [ngxHttpBlocks ||| ngxConfTake1]),
  ("fastcgi_cache_path", [ngxHttpMainConf ||| ngxConf2More]),
  ("fastcgi_cache_revalidate", [ngxHttpBlocks ||| ngxConfFlag]),
  ("fastcgi_cache_use_stale", [ngxHttpBlocks ||| ngxConf1More]),
  ("fastcgi_cache_valid", [ngxHttpBlocks ||| ngxConf1More]),
  ("fastcgi_catch_stderr", [ngxHttpBlocks ||| ngxConfTake1]),
  ("fastcgi_connect_timeout", [ngxHttpBlocks ||| ngxConfTake1]),
  ("fastcgi_force_ranges", [ngxHttpBlocks ||| ngxConfFlag]),
  ("fastcgi_hide_header", [ngxHttpBlocks ||| ngxConfTake1]),
  ("fastcgi_ignore_client_abort", [ngxHttpBlocks ||| ngxConfFlag]),
  ("fastcgi_ignore_headers", [ngxHttpBlocks ||| ngxConf1More]),
  ("fastcgi_index", [ngxHttpBlocks ||| ngxConfTake1]),
  ("fastcgi_intercept_errors", [ngxHttpBlocks ||| ngxConfFlag]),
  ("fastcgi_keep_conn", [ngxHttpBlocks ||| ngxConfFlag]),
  ("fastcgi_limit_rate", [ngxHttpBlocks ||| ngxConfTake1]),
  ("fastcgi_max_temp_file_size", [ngxHttpBlocks ||| ngxConfTake1]),
  ("fastcgi_next_upstream", [ngxHttpBlocks ||| ngxConf1More]),
  ("fastcgi_next_upstream_timeout", [ngxHttpBlocks ||| ngxConfTake1]),
  ("fastcgi_next_upstream_tries", [ngxHttpBlocks ||| ngxConfTake1]),
  ("fastcgi_no_cache", [ngxHttpBlocks ||| ngxConf1More]),
  ("fastcgi_param", [ngxHttpBlocks ||| ngxConfTake23]),
  ("fastcgi_pass", [ngxHttpLocConf ||| ngxHttpLifConf ||| ngxConfTake1]),
  ("fastcgi_pass_header", [ngxHttpBlocks ||| ngxConfTake1]),
  ("fastcgi_pass_request_body", [ngxHttpBlocks ||| ngxConfFlag]),
  ("fastcgi_pass_request_headers", [ngxHttpBlocks ||| ngxConfFlag]),
  ("fastcgi_read_timeout", [ngxHttpBlocks ||| ngxConfTake1]),
  ("fastcgi_request_buffering", [ngxHttpBlocks ||| ngxConfFlag]),
  ("fastcgi_send_lowat", [ngxHttpBlocks ||| ngxConfTake1]),
  ("fastcgi_send_timeout", [ngxHttpBlocks ||| ngxConfTake1]),
  ("fastcgi_socket_keepalive", [ngxHttpBlocks ||| ngxConfFlag]),
  ("fastcgi_split_path_info", [ngxHttpBlocks ||| ngxConfTake1]),
  ("fastcgi_store", [ngxHttpBlocks ||| ngxConfTake1]),
  ("fastcgi_store_access", [ngxHttpBlocks ||| ngxConfTake123]),
  ("fastcgi_temp_file_write_size", [ngxHttpBlocks ||| ngxConfTake1]),
  ("fastcgi_temp_path", [ngxHttpBlocks ||| ngxConfTake1234]),
  ("flv", [ngxHttpLocConf ||| ngxConfNoArgs]),
  ("geo",
    [ngxHttpMainConf ||| ngxConfBlock ||| ngxConfTake12,
     ngxStreamMainConf ||| ngxConfBlock ||| ngxConfTake12]),
  ("geoip_city", [ngxHttpMainConf ||| ngxConfTake12, ngxStreamMainConf ||| ngxConfTake12]),
  ("geoip_country", [ngxHttpMainConf ||| ngxConfTake12, ngxStreamMainConf ||| ngxConfTake12]),
  ("geoip_org", [ngxHttpMainConf ||| ngxConfTake12, ngxStreamMainConf ||| ngxConfTake12]),
  ("geoip_proxy", [ngxHttpMainConf ||| ngxConfTake1]),
  ("geoip_proxy_recursive", [ngxHttpMainConf ||| ngxConfFlag]),
  ("google_perftools_profiles", [ngxMainConf ||| ngxDirectConf ||| ngxConfTake1]),
  ("grpc_bind", [ngxHttpBlocks ||| ngxConfTake12]),
  ("grpc_buffer_size", [ngxHttpBlocks ||| ngxConfTake1]),
  ("grpc_connect_timeout", [ngxHttpBlocks ||| ngxConfTake1]),
  ("grpc_hide_header", [ngxHttpBlocks ||| ngxConfTake1]),
  ("grpc_ignore_headers", [ngxHttpBlocks ||| ngxConf1More]),
  ("grpc_intercept_errors", [ngxHttpBlocks ||| ngxConfFlag]),
  ("grpc_next_upstream", [ngxHttpBlocks ||| ngxConf1More]),
  ("grpc_next_upstream_timeout", [ngxHttpBlocks ||| ngxConfTake1]),
  ("grpc_next_upstream_tries", [ngxHttpBlocks ||| ngxConfTake1]),
  ("grpc_pass", [ngxHttpLocConf ||| ngxHttpLifConf ||| ngxConfTake1]),
  ("grpc_pass_header", [ngxHttpBlocks ||| ngxConfTake1]),
  ("grpc_read_timeout", [ngxHttpBlocks ||| ngxConfTake1]),
  ("grpc_send_timeout", [ngxHttpBlocks ||| ngxConfTake1]),
  ("grpc_set_header", [ngxHttpBlocks ||| ngxConfTake2]),
  ("grpc_socket_keepalive", [ngxHttpBlocks ||| ngxConfFlag]),
  ("grpc_ssl_certificate", [ngxHttpBlocks ||| ngxConfTake1]),
  ("grpc_ssl_certificate_key", [ngxHttpBlocks ||| ngxConfTake1]),
  ("grpc_ssl_ciphers", [ngxHttpBlocks ||| ngxConfTake1]),
  ("grpc_ssl_crl", [ngxHttpBlocks ||| ngxConfTake1]),
  ("grpc_ssl_name", [ngxHttpBlocks ||| ngxConfTake1]),
  ("grpc_ssl_password_file", [ngxHttpBlocks ||| ngxConfTake1]),
  ("grpc_ssl_protocols", [ngxHttpBlocks ||| ngxConf1More]),
  ("grpc_ssl_server_name", [ngxHttpBlocks ||| ngxConfFlag]),
  ("grpc_ssl_session_reuse", [ngxHttpBlocks ||| ngxConfFlag]),
  ("grpc_ssl_trusted_certificate", [ngxHttpBlocks ||| ngxConfTake1]),
  ("grpc_ssl_verify", [ngxHttpBlocks ||| ngxConfFlag]),
  ("grpc_ssl_verify_depth", [ngxHttpBlocks ||| ngxConfTake1]),
  ("gunzip", [ngxHttpBlocks ||| ngxConfFlag]),
  ("gunzip_buffers", [ngxHttpBlocks ||| ngxConfTake2]),
  ("gzip", [ngxHttpBlocks ||| ngxHttpLifConf ||| ngxConfFlag]),
  ("gzip_buffers", [ngxHttpBlocks ||| ngxConfTake2]),
  ("gzip_comp_level", [ngxHttpBlocks ||| ngxConfTake1]),
  ("gzip_disable", [ngxHttpBlocks ||| ngxConf1More]),
  ("gzip_http_version", [ngxHttpBlocks ||| ngxConfTake1]),
  ("gzip_min_length", [ngxHttpBlocks ||| ngxConfTake1]),
  ("gzip_proxied", [ngxHttpBlocks ||| ngxConf1More]),
  ("gzip_static", [ngxHttpBlocks ||| ngxConfTake1]),
  ("gzip_types", [ngxHttpBlocks ||| ngxConf1More]),
  ("gzip_vary", [ngxHttpBlocks ||| ngxConfFlag])]

def directivesHL : Directives := [
  ("hash", [ngxHttpUpsConf ||| ngxConfTake12, ngxStreamUpsConf ||| ngxConfTake12]),
  ("http", [ngxMainConf ||| ngxConfBlock ||| ngxConfNoArgs]),
  ("http2_body_preread_size", [ngxHttpMainConf ||| ngxHttpSrvConf ||| ngxConfTake1]),
  ("http2_chunk_size", [ngxHttpBlocks ||| ngxConfTake1]),
  ("http2_idle_timeout", [ngxHttpMainConf ||| ngxHttpSrvConf ||| ngxConfTake1]),
  ("http2_max_concurrent_pushes", [ngxHttpMainConf ||| ngxHttpSrvConf ||| ngxConfTake1]),
  ("http2_max_concurrent_streams", [ngxHttpMainConf ||| ngxHttpSrvConf ||| ngxConfTake1]),
  ("http2_max_field_size", [ngxHttpMainConf ||| ngxHttpSrvConf ||| ngxConfTake1]),
  ("http2_max_header_size", [ngxHttpMainConf ||| ngxHttpSrvConf ||| ngxConfTake1]),
  ("http2_max_requests", [ngxHttpMainConf ||| ngxHttpSrvConf ||| ngxConfTake1]),
  ("http2_push", [ngxHttpBlocks ||| ngxConfTake1]),
  ("http2_push_preload", [ngxHttpBlocks ||| ngxConfFlag]),
  ("http2_recv_buffer_size", [ngxHttpMainConf ||| ngxConfTake1]),
  ("http2_recv_timeout", [ngxHttpMainConf ||| ngxHttpSrvConf ||| ngxConfTake1]),
  ("if", [ngxHttpSrvConf ||| ngxHttpLocConf ||| ngxConfBlock ||| ngxConf1More]),
  ("if_modified_since", [ngxHttpBlocks ||| ngxConfTake1]),
  ("ignore_invalid_headers", [ngxHttpMainConf ||| ngxHttpSrvConf ||| ngxConfFlag]),
  ("image_filter", [ngxHttpLocConf ||| ngxConfTake123]),
  ("image_filter_buffer", [ngxHttpBlocks ||| ngxConfTake1]),
  ("image_filter_interlace", [ngxHttpBlocks ||| ngxConfFlag]),
  ("image_filter_jpeg_quality", [ngxHttpBlocks ||| ngxConfTake1]),
  ("image_filter_sharpen", [ngxHttpBlocks ||| ngxConfTake1]),
  ("image_filter_transparency", [ngxHttpBlocks ||| ngxConfFlag]),
  ("image_filter_webp_quality", [ngxHttpBlocks ||| ngxConfTake1]),
  ("imap_auth", [ngxMailBlocks ||| ngxConf1More]),
  ("imap_capabilities", [ngxMailBlocks ||| ngxConf1More]),
  ("imap_client_buffer", [ngxMailBlocks ||| ngxConfTake1]),
  ("include", [ngxAnyConf ||| ngxConfTake1]),
  ("index", [ngxHttpBlocks ||| ngxConf1More]),
  ("internal", [ngxHttpLocConf ||| ngxConfNoArgs]),
  ("ip_hash", [ngxHttpUpsConf ||| ngxConfNoArgs]),
  ("keepalive", [ngxHttpUpsConf ||| ngxConfTake1]),
  ("keepalive_disable", [ngxHttpBlocks ||| ngxConfTake12]),
  ("keepalive_requests", [ngxHttpBlocks ||| ngxConfTake1, ngxHttpUpsConf ||| ngxConfTake1]),
  ("keepalive_timeout", [ngxHttpBlocks ||| ngxConfTake12, ngxHttpUpsConf ||| ngxConfTake1]),
  ("large_client_header_buffers", [ngxHttpMainConf ||| ngxHttpSrvConf ||| ngxConfTake2]),
  ("least_conn", [ngxHttpUpsConf ||| ngxConfNoArgs, ngxStreamUpsConf ||| ngxConfNoArgs]),
  ("limit_conn", [ngxHttpBlocks ||| ngxConfTake2, ngxStreamBlocks ||| ngxConfTake2]),
  ("limit_conn_log_level", [ngxHttpBlocks ||| ngxConfTake1, ngxStreamBlocks ||| ngxConfTake1]),
  ("limit_conn_status", [ngxHttpBlocks ||| ngxConfTake1]),
  ("limit_conn_zone", [ngxHttpMainConf ||| ngxConfTake2, ngxStreamMainConf ||| ngxConfTake2]),
  ("limit_except", [ngxHttpLocConf ||| ngxConfBlock ||| ngxConf1More]),
  ("limit_rate", [ngxHttpBlocks ||| ngxHttpLifConf ||| ngxConfTake1]),
  ("limit_rate_after", [ngxHttpBlocks ||| ngxHttpLifConf ||| ngxConfTake1]),
  ("limit_req", [ngxHttpBlocks ||| ngxConfTake123]),
  ("limit_req_log_level", [ngxHttpBlocks ||| ngxConfTake1]),
  ("limit_req_status", [ngxHttpBlocks ||| ngxConfTake1]),
  ("limit_req_zone", [ngxHttpMainConf ||| ngxConfTake3]),
  ("lingering_close", [ngxHttpBlocks ||| ngxConfTake1]),
  ("lingering_time", [ngxHttpBlocks ||| ngxConfTake1]),
  ("lingering_timeout", [ngxHttpBlocks ||| ngxConfTake1]),
  ("listen",
    [ngxHttpSrvConf ||| ngxConf1More,
     ngxMailSrvConf ||| ngxConf1More,
     ngxStreamSrvConf ||| ngxConf1More]),
  ("load_module", [ngxMainConf ||| ngxDirectConf ||| ngxConfTake1]),
  ("location", [ngxHttpSrvConf ||| ngxHttpLocConf ||| ngxConfBlock ||| ngxConfTake12]),
  ("lock_file", [ngxMainConf ||| ngxDirectConf ||| ngxConfTake1]),
  ("log_format", [ngxHttpMainConf ||| ngxConf2More, ngxStreamMainConf ||| ngxConf2More]),
  ("log_not_found", [ngxHttpBlocks ||| ngxConfFlag]),
  ("log_subrequest", [ngxHttpBlocks ||| ngxConfFlag])]

def directivesMO : Directives := [
  ("mail", [ngxMainConf ||| ngxConfBlock ||| ngxConfNoArgs]),
  ("map",
    [ngxHttpMainConf ||| ngxConfBlock ||| ngxConfTake2,
     ngxStreamMainConf ||| ngxConfBlock ||| ngxConfTake2]),
  ("map_hash_bucket_size", [ngxHttpMainConf ||| ngxConfTake1, ngxStreamMainConf ||| ngxConfTake1]),
  ("map_hash_max_size", [ngxHttpMainConf ||| ngxConfTake1, ngxStreamMainConf ||| ngxConfTake1]),
  ("master_process", [ngxMainConf ||| ngxDirectConf ||| ngxConfFlag]),
  ("max_ranges", [ngxHttpBlocks ||| ngxConfTake1]),
  ("memcached_bind", [ngxHttpBlocks ||| ngxConfTake12]),
  ("memcached_buffer_size", [ngxHttpBlocks ||| ngxConfTake1]),
  ("memcached_connect_timeout", [ngxHttpBlocks ||| ngxConfTake1]),
  ("memcached_gzip_flag", [ngxHttpBlocks ||| ngxConfTake1]),
  ("memcached_next_upstream", [ngxHttpBlocks ||| ngxConf1More]),
  ("memcached_next_upstream_timeout", [ngxHttpBlocks ||| ngxConfTake1]),
  ("memcached_next_upstream_tries", [ngxHttpBlocks ||| ngxConfTake1]),
  ("memcached_pass", [ngxHttpLocConf ||| ngxHttpLifConf ||| ngxConfTake1]),
  ("memcached_read_timeout", [ngxHttpBlocks ||| ngxConfTake1]),
  ("memcached_send_timeout", [ngxHttpBlocks ||| ngxConfTake1]),
  ("memcached_socket_keepalive", [ngxHttpBlocks ||| ngxConfFlag]),
  ("merge_slashes", [ngxHttpMainConf ||| ngxHttpSrvConf ||| ngxConfFlag]),
  ("min_delete_depth", [ngxHttpBlocks ||| ngxConfTake1]),
  ("mirror", [ngxHttpBlocks ||| ngxConfTake1]),
  ("mirror_request_body", [ngxHttpBlocks ||| ngxConfFlag]),
  ("modern_browser", [ngxHttpBlocks ||| ngxConfTake12]),
  ("modern_browser_value", [ngxHttpBlocks ||| ngxConfTake1]),
  ("mp4", [ngxHttpLocConf ||| ngxConfNoArgs]),
  ("mp4_buffer_size", [ngxHttpBlocks ||| ngxConfTake1]),
  ("mp4_max_buffer_size", [ngxHttpBlocks ||| ngxConfTake1]),
  ("msie_padding", [ngxHttpBlocks ||| ngxConfFlag]),
  ("msie_refresh", [ngxHttpBlocks ||| ngxConfFlag]),
  ("multi_accept", [ngxEventConf ||| ngxConfFlag]),
  ("open_file_cache", [ngxHttpBlocks ||| ngxConfTake12]),
  ("open_file_cache_errors", [ngxHttpBlocks ||| ngxConfFlag]),
  ("open_file_cache_min_uses", [ngxHttpBlocks ||| ngxConfTake1]),
  ("open_file_cache_valid", [ngxHttpBlocks ||| ngxConfTake1]),
  ("open_log_file_cache", [ngxHttpBlocks ||| ngxConfTake1234, ngxStreamBlocks ||| ngxConfTake1234]),
  ("oauth2_redirect_separator", []),
  ("oauth2_authorization_expire", []),
  ("oauth2_access_expire", []),
  ("oauth2_allow_get_access", []),
  ("oauth2_allowed_access_type", []),
  ("oauth2_token_type", []),
  ("oauth2_provider_name", []),
  ("oauth2_auth_endpoint", []),
  ("oauth2_token_endpoint", []),
  ("oauth2_info_endpoint", []),
  ("oauth2_session_path", []),
  ("oauth2_session_max_age", []),
  ("oauth2_session_domain", []),
  ("oauth2_session_secure", []),
  ("oauth2_session_hhhponly", []),
  ("oauth2_session_name", []),
  ("oauth2_csrf_secret", []),
  ("output_buffers", [ngxHttpBlocks ||| ngxConfTake2]),
  ("override_charset", [ngxHttpBlocks ||| ngxHttpLifConf ||| ngxConfFlag])]

def directivesP : Directives := [
  ("pcre_jit", [ngxMainConf ||| ngxDirectConf ||| ngxConfFlag]),
  ("perl", [ngxHttpLocConf ||| ngxHttpLmtConf ||| ngxConfTake1]),
  ("perl_modules", [ngxHttpMainConf ||| ngxConfTake1]),
  ("perl_require", [ngxHttpMainConf ||| ngxConfTake1]),
  ("perl_set", [ngxHttpMainConf ||| ngxConfTake2]),
  ("pid", [ngxMainConf ||| ngxDirectConf ||| ngxConfTake1]),
  ("pop3_auth", [ngxMailBlocks ||| ngxConf1More]),
  ("pop3_capabilities", [ngxMailBlocks ||| ngxConf1More]),
  ("port_in_redirect", [ngxHttpBlocks ||| ngxConfFlag]),
  ("postpone_output", [ngxHttpBlocks ||| ngxConfTake1]),
  ("preread_buffer_size", [ngxStreamBlocks ||| ngxConfTake1]),
  ("preread_timeout", [ngxStreamBlocks ||| ngxConfTake1]),
  ("protocol", [ngxMailSrvConf ||| ngxConfTake1]),
  ("proxy_bind", [ngxHttpBlocks ||| ngxConfTake12, ngxStreamBlocks ||| ngxConfTake12]),
  ("proxy_buffer", [ngxMailBlocks ||| ngxConfTake1]),
  ("proxy_buffer_size", [ngxHttpBlocks ||| ngxConfTake1, ngxStreamBlocks ||| ngxConfTake1]),
  ("proxy_buffering", [ngxHttpBlocks ||| ngxConfFlag]),
  ("proxy_buffers", [ngxHttpBlocks ||| ngxConfTake2]),
  ("proxy_busy_buffers_size", [ngxHttpBlocks ||| ngxConfTake1]),
  ("proxy_cache", [ngxHttpBlocks ||| ngxConfTake1]),
  ("proxy_cache_background_update", [ngxHttpBlocks ||| ngxConfFlag]),
  ("proxy_cache_bypass", [ngxHttpBlocks ||| ngxConf1More]),
  ("proxy_cache_convert_head", [ngxHttpBlocks ||| ngxConfFlag]),
  ("proxy_cache_key", [ngxHttpBlocks ||| ngxConfTake1]),
  ("proxy_cache_lock", [ngxHttpBlocks ||| ngxConfFlag]),
  ("proxy_cache_lock_age", [ngxHttpBlocks ||| ngxConfTake1]),
  ("proxy_cache_lock_timeout", [ngxHttpBlocks ||| ngxConfTake1]),
  ("proxy_cache_max_range_offset", [ngxHttpBlocks ||| ngxConfTake1]),
  ("proxy_cache_methods", [ngxHttpBlocks ||| ngxConf1More]),
  ("proxy_cache_min_uses", [ngxHttpBlocks ||| ngxConfTake1]),
  ("proxy_cache_path", [ngxHttpMainConf ||| ngxConf2More]),
  ("proxy_cache_revalidate", [ngxHttpBlocks ||| ngxConfFlag]),
  ("proxy_cache_use_stale", [ngxHttpBlocks ||| ngxConf1More]),
  ("proxy_cache_valid", [ngxHttpBlocks ||| ngxConf1More]),
  ("proxy_connect_timeout", [ngxHttpBlocks ||| ngxConfTake1, ngxStreamBlocks ||| ngxConfTake1]),
  ("proxy_cookie_domain", [ngxHttpBlocks ||| ngxConfTake12]),
  ("proxy_cookie_path", [ngxHttpBlocks ||| ngxConfTake12]),
  ("proxy_download_rate", [ngxStreamBlocks ||| ngxConfTake1]),
  ("proxy_force_ranges", [ngxHttpBlocks ||| ngxConfFlag]),
  ("proxy_headers_hash_bucket_size", [ngxHttpBlocks ||| ngxConfTake1]),
  ("proxy_headers_hash_max_size", [ngxHttpBlocks ||| ngxConfTake1]),
  ("proxy_hide_header", [ngxHttpBlocks ||| ngxConfTake1]),
  ("proxy_http_version", [ngxHttpBlocks ||| ngxConfTake1]),
  ("proxy_ignore_client_abort", [ngxHttpBlocks ||| ngxConfFlag]),
  ("proxy_ignore_headers", [ngxHttpBlocks ||| ngxConf1More]),
  ("proxy_intercept_errors", [ngxHttpBlocks ||| ngxConfFlag]),
  ("proxy_limit_rate", [ngxHttpBlocks ||| ngxConfTake1]),
  ("proxy_max_temp_file_size", [ngxHttpBlocks ||| ngxConfTake1]),
  ("proxy_method", [ngxHttpBlocks ||| ngxConfTake1]),
  ("proxy_next_upstream", [ngxHttpBlocks ||| ngxConf1More, ngxStreamBlocks ||| ngxConfFlag]),
  ("proxy_next_upstream_timeout",
    [ngxHttpBlocks ||| ngxConfTake1,
     ngxStreamBlocks ||| ngxConfTake1]),
  ("proxy_next_upstream_tries", [ngxHttpBlocks ||| ngxConfTake1, ngxStreamBlocks ||| ngxConfTake1]),
  ("proxy_no_cache", [ngxHttpBlocks ||| ngxConf1More]),
  ("proxy_pass",
    [ngxHttpLocConf ||| ngxHttpLifConf ||| ngxHttpLmtConf ||| ngxConfTake1,
     ngxStreamSrvConf ||| ngxConfTake1]),
  ("proxy_pass_error_message", [ngxMailBlocks ||| ngxConfFlag]),
  ("proxy_pass_header", [ngxHttpBlocks ||| ngxConfTake1]),
  ("proxy_pass_request_body", [ngxHttpBlocks ||| ngxConfFlag]),
  ("proxy_pass_request_headers", [ngxHttpBlocks ||| ngxConfFlag]),
  ("proxy_protocol", [ngxStreamBlocks ||| ngxConfFlag]),
  ("proxy_protocol_timeout", [ngxStreamBlocks ||| ngxConfTake1]),
  ("proxy_read_timeout", [ngxHttpBlocks ||| ngxConfTake1]),
  ("proxy_redirect", [ngxHttpBlocks ||| ngxConfTake12]),
  ("proxy_request_buffering", [ngxHttpBlocks ||| ngxConfFlag]),
  ("proxy_requests", [ngxStreamBlocks ||| ngxConfTake1]),
  ("proxy_responses", [ngxStreamBlocks ||| ngxConfTake1]),
  ("proxy_send_lowat", [ngxHttpBlocks ||| ngxConfTake1]),
  ("proxy_send_timeout", [ngxHttpBlocks ||| ngxConfTake1]),
  ("proxy_set_body", [ngxHttpBlocks ||| ngxConfTake1]),
  ("proxy_set_header", [ngxHttpBlocks ||| ngxConfTake2]),
  ("proxy_socket_keepalive", [ngxHttpBlocks ||| ngxConfFlag, ngxStreamBlocks ||| ngxConfFlag]),
  ("proxy_ssl", [ngxStreamBlocks ||| ngxConfFlag]),
  ("proxy_ssl_certificate", [ngxHttpBlocks ||| ngxConfTake1, ngxStreamBlocks ||| ngxConfTake1]),
  ("proxy_ssl_certificate_key", [ngxHttpBlocks ||| ngxConfTake1, ngxStreamBlocks ||| ngxConfTake1]),
  ("proxy_ssl_ciphers", [ngxHttpBlocks ||| ngxConfTake1, ngxStreamBlocks ||| ngxConfTake1]),
  ("proxy_ssl_crl", [ngxHttpBlocks ||| ngxConfTake1, ngxStreamBlocks ||| ngxConfTake1]),
  ("proxy_ssl_name", [ngxHttpBlocks ||| ngxConfTake1, ngxStreamBlocks ||| ngxConfTake1]),
  ("proxy_ssl_password_file", [ngxHttpBlocks ||| ngxConfTake1, ngxStreamBlocks ||| ngxConfTake1]),
  ("proxy_ssl_protocols", [ngxHttpBlocks ||| ngxConf1More, ngxStreamBlocks ||| ngxConf1More]),
  ("proxy_ssl_server_name", [ngxHttpBlocks ||| ngxConfFlag, ngxStreamBlocks ||| ngxConfFlag]),
  ("proxy_ssl_session_reuse", [ngxHttpBlocks ||| ngxConfFlag, ngxStreamBlocks ||| ngxConfFlag]),
  ("proxy_ssl_trusted_certificate",
    [ngxHttpBlocks ||| ngxConfTake1,
     ngxStreamBlocks ||| ngxConfTake1]),
  ("proxy_ssl_verify", [ngxHttpBlocks ||| ngxConfFlag, ngxStreamBlocks ||| ngxConfFlag]),
  ("proxy_ssl_verify_depth", [ngxHttpBlocks ||| ngxConfTake1, ngxStreamBlocks ||| ngxConfTake1]),
  ("proxy_store", [ngxHttpBlocks ||| ngxConfTake1]),
  ("proxy_store_access", [ngxHttpBlocks ||| ngxConfTake123]),
  ("proxy_temp_file_write_size", [ngxHttpBlocks ||| ngxConfTake1]),
  ("proxy_temp_path", [ngxHttpBlocks ||| ngxConfTake1234]),
  ("proxy_timeout", [ngxMailBlocks ||| ngxConfTake1, ngxStreamBlocks ||| ngxConfTake1]),
  ("proxy_upload_rate", [ngxStreamBlocks ||| ngxConfTake1])]

def directivesR : Directives := [
  ("random",
    [ngxHttpUpsConf ||| ngxConfNoArgs ||| ngxConfTake12,
     ngxStreamUpsConf ||| ngxConfNoArgs ||| ngxConfTake12]),
  ("random_index", [ngxHttpLocConf ||| ngxConfFlag]),
  ("read_ahead", [ngxHttpBlocks ||| ngxConfTake1]),
  ("real_ip_header", [ngxHttpBlocks ||| ngxConfTake1]),
  ("real_ip_recursive", [ngxHttpBlocks ||| ngxConfFlag]),
  ("recursive_error_pages", [ngxHttpBlocks ||| ngxConfFlag]),
  ("referer_hash_bucket_size", [ngxHttpSrvConf ||| ngxHttpLocConf ||| ngxConfTake1]),
  ("referer_hash_max_size", [ngxHttpSrvConf ||| ngxHttpLocConf ||| ngxConfTake1]),
  ("request_pool_size", [ngxHttpMainConf ||| ngxHttpSrvConf ||| ngxConfTake1]),
  ("reset_timedout_connection", [ngxHttpBlocks ||| ngxConfFlag]),
  ("resolver",
    [ngxHttpBlocks ||| ngxConf1More,
     ngxMailBlocks ||| ngxConf1More,
     ngxStreamBlocks ||| ngxConf1More]),
  ("resolver_timeout",
    [ngxHttpBlocks ||| ngxConfTake1,
     ngxMailBlocks ||| ngxConfTake1,
     ngxStreamBlocks ||| ngxConfTake1]),
  ("return",
    [ngxHttpSrvConf ||| ngxHttpSifConf ||| ngxHttpLocConf ||| ngxHttpLifConf ||| ngxConfTake12,
     ngxStreamSrvConf ||| ngxConfTake1]),
  ("rewrite",
    [ngxHttpSrvConf ||| ngxHttpSifConf ||| ngxHttpLocConf ||| ngxHttpLifConf ||| ngxConfTake23]),
  ("rewrite_log",
    [ngxHttpMainConf ||| ngxHttpSrvConf ||| ngxHttpSifConf ||| ngxHttpLocConf |||
      ngxHttpLifConf ||| ngxConfFlag]),
  ("root", [ngxHttpBlocks ||| ngxHttpLifConf ||| ngxConfTake1])]

def directivesS : Directives := [
  ("satisfy", [ngxHttpBlocks ||| ngxConfTake1]),
  ("scgi_bind", [ngxHttpBlocks ||| ngxConfTake12]),
  ("scgi_buffer_size", [ngxHttpBlocks ||| ngxConfTake1]),
  ("scgi_buffering", [ngxHttpBlocks ||| ngxConfFlag]),
  ("scgi_buffers", [ngxHttpBlocks ||| ngxConfTake2]),
  ("scgi_busy_buffers_size", [ngxHttpBlocks ||| ngxConfTake1]),
  ("scgi_cache", [ngxHttpBlocks ||| ngxConfTake1]),
  ("scgi_cache_background_update", [ngxHttpBlocks ||| ngxConfFlag]),
  ("scgi_cache_bypass", [ngxHttpBlocks ||| ngxConf1More]),
  ("scgi_cache_key", [ngxHttpBlocks ||| ngxConfTake1]),
  ("scgi_cache_lock", [ngxHttpBlocks ||| ngxConfFlag]),
  ("scgi_cache_lock_age", [ngxHttpBlocks ||| ngxConfTake1]),
  ("scgi_cache_lock_timeout", [ngxHttpBlocks ||| ngxConfTake1]),
  ("scgi_cache_max_range_offset", [ngxHttpBlocks ||| ngxConfTake1]),
  ("scgi_cache_methods", [ngxHttpBlocks ||| ngxConf1More]),
  ("scgi_cache_min_uses", [ngxHttpBlocks ||| ngxConfTake1]),
  ("scgi_cache_path", [ngxHttpMainConf ||| ngxConf2More]),
  ("scgi_cache_revalidate", [ngxHttpBlocks ||| ngxConfFlag]),
  ("scgi_cache_use_stale", [ngxHttpBlocks ||| ngxConf1More]),
  ("scgi_cache_valid", [ngxHttpBlocks ||| ngxConf1More]),
  ("scgi_connect_timeout", [ngxHttpBlocks ||| ngxConfTake1]),
  ("scgi_force_ranges", [ngxHttpBlocks ||| ngxConfFlag]),
  ("scgi_hide_header", [ngxHttpBlocks ||| ngxConfTake1]),
  ("scgi_ignore_client_abort", [ngxHttpBlocks ||| ngxConfFlag]),
  ("scgi_ignore_headers", [ngxHttpBlocks ||| ngxConf1More]),
  ("scgi_intercept_errors", [ngxHttpBlocks ||| ngxConfFlag]),
  ("scgi_limit_rate", [ngxHttpBlocks ||| ngxConfTake1]),
  ("scgi_max_temp_file_size", [ngxHttpBlocks ||| ngxConfTake1]),
  ("scgi_next_upstream", [ngxHttpBlocks ||| ngxConf1More]),
  ("scgi_next_upstream_timeout", [ngxHttpBlocks ||| ngxConfTake1]),
  ("scgi_next_upstream_tries", [ngxHttpBlocks ||| ngxConfTake1]),
  ("scgi_no_cache", [ngxHttpBlocks ||| ngxConf1More]),
  ("scgi_param", [ngxHttpBlocks ||| ngxConfTake23]),
  ("scgi_pass", [ngxHttpLocConf ||| ngxHttpLifConf ||| ngxConfTake1]),
  ("scgi_pass_header", [ngxHttpBlocks ||| ngxConfTake1]),
  ("scgi_pass_request_body", [ngxHttpBlocks ||| ngxConfFlag]),
  ("scgi_pass_request_headers", [ngxHttpBlocks ||| ngxConfFlag]),
  ("scgi_read_timeout", [ngxHttpBlocks ||| ngxConfTake1]),
  ("scgi_request_buffering", [ngxHttpBlocks ||| ngxConfFlag]),
  ("scgi_send_timeout", [ngxHttpBlocks ||| ngxConfTake1]),
  ("scgi_socket_keepalive", [ngxHttpBlocks ||| ngxConfFlag]),
  ("scgi_store", [ngxHttpBlocks ||| ngxConfTake1]),
  ("scgi_store_access", [ngxHttpBlocks ||| ngxConfTake123]),
  ("scgi_temp_file_write_size", [ngxHttpBlocks ||| ngxConfTake1]),
  ("scgi_temp_path", [ngxHttpBlocks ||| ngxConfTake1234]),
  ("secure_link", [ngxHttpBlocks ||| ngxConfTake1]),
  ("secure_link_md5", [ngxHttpBlocks ||| ngxConfTake1]),
  ("secure_link_secret", [ngxHttpBlocks ||| ngxConfTake1]),
  ("send_lowat", [ngxHttpBlocks ||| ngxConfTake1]),
  ("send_timeout", [ngxHttpBlocks ||| ngxConfTake1]),
  ("sendfile", [ngxHttpBlocks ||| ngxHttpLifConf ||| ngxConfFlag]),
  ("sendfile_max_chunk", [ngxHttpBlocks ||| ngxConfTake1]),
  ("server",
    [ngxHttpMainConf ||| ngxConfBlock ||| ngxConfNoArgs,
     ngxHttpUpsConf ||| ngxConf1More,
     ngxMailMainConf ||| ngxConfBlock ||| ngxConfNoArgs,
     ngxStreamMainConf ||| ngxConfBlock ||| ngxConfNoArgs,
     ngxStreamUpsConf ||| ngxConf1More]),
  ("server_name", [ngxHttpSrvConf ||| ngxConf1More, ngxMailBlocks ||| ngxConfTake1]),
  ("server_name_in_redirect", [ngxHttpBlocks ||| ngxConfFlag]),
  ("server_names_hash_bucket_size", [ngxHttpMainConf ||| ngxConfTake1]),
  ("server_names_hash_max_size", [ngxHttpMainConf ||| ngxConfTake1]),
  ("server_tokens", [ngxHttpBlocks ||| ngxConfTake1]),
  ("set",
    [ngxHttpSrvConf ||| ngxHttpSifConf ||| ngxHttpLocConf ||| ngxHttpLifConf ||| ngxConfTake2]),
  ("set_real_ip_from", [ngxHttpBlocks ||| ngxConfTake1, ngxStreamBlocks ||| ngxConfTake1]),
  ("slice", [ngxHttpBlocks ||| ngxConfTake1]),
  ("smtp_auth", [ngxMailBlocks ||| ngxConf1More]),
  ("smtp_capabilities", [ngxMailBlocks ||| ngxConf1More]),
  ("smtp_client_buffer", [ngxMailBlocks ||| ngxConfTake1]),
  ("smtp_greeting_delay", [ngxMailBlocks ||| ngxConfTake1]),
  ("source_charset", [ngxHttpBlocks ||| ngxHttpLifConf ||| ngxConfTake1]),
  ("spdy_chunk_size", [ngxHttpBlocks ||| ngxConfTake1]),
  ("spdy_headers_comp", [ngxHttpMainConf ||| ngxHttpSrvConf ||| ngxConfTake1]),
  ("split_clients",
    [ngxHttpMainConf ||| ngxConfBlock ||| ngxConfTake2,
     ngxStreamMainConf ||| ngxConfBlock ||| ngxConfTake2]),
  ("ssi", [ngxHttpBlocks ||| ngxHttpLifConf ||| ngxConfFlag]),
  ("ssi_last_modified", [ngxHttpBlocks ||| ngxConfFlag]),
  ("ssi_min_file_chunk", [ngxHttpBlocks ||| ngxConfTake1]),
  ("ssi_silent_errors", [ngxHttpBlocks ||| ngxConfFlag]),
  ("ssi_types", [ngxHttpBlocks ||| ngxConf1More]),
  ("ssi_value_length", [ngxHttpBlocks ||| ngxConfTake1]),
  ("ssl", [ngxHttpMainConf ||| ngxHttpSrvConf ||| ngxConfFlag, ngxMailBlocks ||| ngxConfFlag]),
  ("ssl_buffer_size", [ngxHttpMainConf ||| ngxHttpSrvConf ||| ngxConfTake1]),
  ("ssl_certificate",
    [ngxHttpMainConf ||| ngxHttpSrvConf ||| ngxConfTake1,
     ngxMailBlocks ||| ngxConfTake1,
     ngxStreamBlocks ||| ngxConfTake1]),
  ("ssl_certificate_key",
    [ngxHttpMainConf ||| ngxHttpSrvConf ||| ngxConfTake1,
     ngxMailBlocks ||| ngxConfTake1,
     ngxStreamBlocks ||| ngxConfTake1]),
  ("ssl_ciphers",
    [ngxHttpMainConf ||| ngxHttpSrvConf ||| ngxConfTake1,
     ngxMailBlocks ||| ngxConfTake1,
     ngxStreamBlocks ||| ngxConfTake1]),
  ("ssl_client_certificate",
    [ngxHttpMainConf ||| ngxHttpSrvConf ||| ngxConfTake1,
     ngxMailBlocks ||| ngxConfTake1,
     ngxStreamBlocks ||| ngxConfTake1]),
  ("ssl_crl",
    [ngxHttpMainConf ||| ngxHttpSrvConf ||| ngxConfTake1,
     ngxMailBlocks ||| ngxConfTake1,
     ngxStreamBlocks ||| ngxConfTake1]),
  ("ssl_dhparam",
    [ngxHttpMainConf ||| ngxHttpSrvConf ||| ngxConfTake1,
     ngxMailBlocks ||| ngxConfTake1,
     ngxStreamBlocks ||| ngxConfTake1]),
  ("ssl_early_data", [ngxHttpMainConf ||| ngxHttpSrvConf ||| ngxConfFlag]),
  ("ssl_ecdh_curve",
    [ngxHttpMainConf ||| ngxHttpSrvConf ||| ngxConfTake1,
     ngxMailBlocks ||| ngxConfTake1,
     ngxStreamBlocks ||| ngxConfTake1]),
  ("ssl_engine", [ngxMainConf ||| ngxDirectConf ||| ngxConfTake1]),
  ("ssl_handshake_timeout", [ngxStreamBlocks ||| ngxConfTake1]),
  ("ssl_password_file",
    [ngxHttpMainConf ||| ngxHttpSrvConf ||| ngxConfTake1,
     ngxMailBlocks ||| ngxConfTake1,
     ngxStreamBlocks ||| ngxConfTake1]),
  ("ssl_prefer_server_ciphers",
    [ngxHttpMainConf ||| ngxHttpSrvConf ||| ngxConfFlag,
     ngxMailBlocks ||| ngxConfFlag,
     ngxStreamBlocks ||| ngxConfFlag]),
  ("ssl_preread", [ngxStreamBlocks ||| ngxConfFlag]),
  ("ssl_protocols",
    [ngxHttpMainConf ||| ngxHttpSrvConf ||| ngxConf1More,
     ngxMailBlocks ||| ngxConf1More,
     ngxStreamBlocks ||| ngxConf1More]),
  ("ssl_session_cache",
    [ngxHttpMainConf ||| ngxHttpSrvConf ||| ngxConfTake12,
     ngxMailBlocks ||| ngxConfTake12,
     ngxStreamBlocks ||| ngxConfTake12]),
  ("ssl_session_ticket_key",
    [ngxHttpMainConf ||| ngxHttpSrvConf ||| ngxConfTake1,
     ngxMailBlocks ||| ngxConfTake1,
     ngxStreamBlocks ||| ngxConfTake1]),
  ("ssl_session_tickets",
    [ngxHttpMainConf ||| ngxHttpSrvConf ||| ngxConfFlag,
     ngxMailBlocks ||| ngxConfFlag,
     ngxStreamBlocks ||| ngxConfFlag]),
  ("ssl_session_timeout",
    [ngxHttpMainConf ||| ngxHttpSrvConf ||| ngxConfTake1,
     ngxMailBlocks ||| ngxConfTake1,
     ngxStreamBlocks ||| ngxConfTake1]),
  ("ssl_stapling", [ngxHttpMainConf ||| ngxHttpSrvConf ||| ngxConfFlag]),
  ("ssl_stapling_file", [ngxHttpMainConf ||| ngxHttpSrvConf ||| ngxConfTake1]),
  ("ssl_stapling_responder", [ngxHttpMainConf ||| ngxHttpSrvConf ||| ngxConfTake1]),
  ("ssl_stapling_verify", [ngxHttpMainConf ||| ngxHttpSrvConf ||| ngxConfFlag]),
  ("ssl_trusted_certificate",
    [ngxHttpMainConf ||| ngxHttpSrvConf ||| ngxConfTake1,
     ngxMailBlocks ||| ngxConfTake1,
     ngxStreamBlocks ||| ngxConfTake1]),
  ("ssl_verify_client",
    [ngxHttpMainConf ||| ngxHttpSrvConf ||| ngxConfTake1,
     ngxMailBlocks ||| ngxConfTake1,
     ngxStreamBlocks ||| ngxConfTake1]),
  ("ssl_verify_depth",
    [ngxHttpMainConf ||| ngxHttpSrvConf ||| ngxConfTake1,
     ngxMailBlocks ||| ngxConfTake1,
     ngxStreamBlocks ||| ngxConfTake1]),
  ("starttls", [ngxMailBlocks ||| ngxConfTake1]),
  ("stream", [ngxMainConf ||| ngxConfBlock ||| ngxConfNoArgs]),
  ("stub_status", [ngxHttpSrvConf ||| ngxHttpLocConf ||| ngxConfNoArgs ||| ngxConfTake1]),
  ("sub_filter", [ngxHttpBlocks ||| ngxConfTake2]),
  ("sub_filter_last_modified", [ngxHttpBlocks ||| ngxConfFlag]),
  ("sub_filter_once", [ngxHttpBlocks ||| ngxConfFlag]),
  ("sub_filter_types", [ngxHttpBlocks ||| ngxConf1More]),
  ("subrequest_output_buffer_size", [ngxHttpBlocks ||| ngxConfTake1])]

def directivesTZ : Directives := [
  ("tcp_nodelay", [ngxHttpBlocks ||| ngxConfFlag, ngxStreamBlocks ||| ngxConfFlag]),
  ("tcp_nopush", [ngxHttpBlocks ||| ngxConfFlag]),
  ("thread_pool", [ngxMainConf ||| ngxDirectConf ||| ngxConfTake23]),
  ("timeout", [ngxMailBlocks ||| ngxConfTake1]),
  ("timer_resolution", [ngxMainConf ||| ngxDirectConf ||| ngxConfTake1]),
  ("try_files", [ngxHttpSrvConf ||| ngxHttpLocConf ||| ngxConf2More]),
  ("types", [ngxHttpBlocks ||| ngxConfBlock ||| ngxConfNoArgs]),
  ("types_hash_bucket_size", [ngxHttpBlocks ||| ngxConfTake1]),
  ("types_hash_max_size", [ngxHttpBlocks ||| ngxConfTake1]),
  ("underscores_in_headers", [ngxHttpMainConf ||| ngxHttpSrvConf ||| ngxConfFlag]),
  ("uninitialized_variable_warn",
    [ngxHttpMainConf ||| ngxHttpSrvConf ||| ngxHttpSifConf ||| ngxHttpLocConf |||
      ngxHttpLifConf ||| ngxConfFlag]),
  ("upstream",
    [ngxHttpMainConf ||| ngxConfBlock ||| ngxConfTake1,
     ngxStreamMainConf ||| ngxConfBlock ||| ngxConfTake1]),
  ("use", [ngxEventConf ||| ngxConfTake1]),
  ("user", [ngxMainConf ||| ngxDirectConf ||| ngxConfTake12]),
  ("userid", [ngxHttpBlocks ||| ngxConfTake1]),
  ("userid_domain", [ngxHttpBlocks ||| ngxConfTake1]),
  ("userid_expires", [ngxHttpBlocks ||| ngxConfTake1]),
  ("userid_mark", [ngxHttpBlocks ||| ngxConfTake1]),
  ("userid_name", [ngxHttpBlocks ||| ngxConfTake1]),
  ("userid_p3p", [ngxHttpBlocks ||| ngxConfTake1]),
  ("userid_path", [ngxHttpBlocks ||| ngxConfTake1]),
  ("userid_service", [ngxHttpBlocks ||| ngxConfTake1]),
  ("uwsgi_bind", [ngxHttpBlocks ||| ngxConfTake12]),
  ("uwsgi_buffer_size", [ngxHttpBlocks ||| ngxConfTake1]),
  ("uwsgi_buffering", [ngxHttpBlocks ||| ngxConfFlag]),
  ("uwsgi_buffers", [ngxHttpBlocks ||| ngxConfTake2]),
  ("uwsgi_busy_buffers_size", [ngxHttpBlocks ||| ngxConfTake1]),
  ("uwsgi_cache", [ngxHttpBlocks ||| ngxConfTake1]),
  ("uwsgi_cache_background_update", [ngxHttpBlocks ||| ngxConfTake1]),
  ("uwsgi_cache_bypass", [ngxHttpBlocks ||| ngxConf1More]),
  ("uwsgi_cache_key", [ngxHttpBlocks ||| ngxConfTake1]),
  ("uwsgi_cache_lock", [ngxHttpBlocks ||| ngxConfFlag]),
  ("uwsgi_cache_lock_age", [ngxHttpBlocks ||| ngxConfTake1]),
  ("uwsgi_cache_lock_timeout", [ngxHttpBlocks ||| ngxConfTake1]),
  ("uwsgi_cache_max_range_offset", [ngxHttpBlocks ||| ngxConfTake1]),
  ("uwsgi_cache_methods", [ngxHttpBlocks ||| ngxConf1More]),
  ("uwsgi_cache_min_uses", [ngxHttpBlocks ||| ngxConfTake1]),
  ("uwsgi_cache_path", [ngxHttpMainConf ||| ngxConf2More]),
  ("uwsgi_cache_revalidate", [ngxHttpBlocks ||| ngxConfFlag]),
  ("uwsgi_cache_use_stale", [ngxHttpBlocks ||| ngxConf1More]),
  ("uwsgi_cache_valid", [ngxHttpBlocks ||| ngxConf1More]),
  ("uwsgi_connect_timeout", [ngxHttpBlocks ||| ngxConfTake1]),
  ("uwsgi_force_ranges", [ngxHttpBlocks ||| ngxConfFlag]),
  ("uwsgi_hide_header", [ngxHttpBlocks ||| ngxConfTake1]),
  ("uwsgi_ignore_client_abort", [ngxHttpBlocks ||| ngxConfFlag]),
  ("uwsgi_ignore_headers", [ngxHttpBlocks ||| ngxConf1More]),
  ("uwsgi_intercept_errors", [ngxHttpBlocks ||| ngxConfFlag]),
  ("uwsgi_limit_rate", [ngxHttpBlocks ||| ngxConfTake1]),
  ("uwsgi_max_temp_file_size", [ngxHttpBlocks ||| ngxConfTake1]),
  ("uwsgi_modifier1", [ngxHttpBlocks ||| ngxConfTake1]),
  ("uwsgi_modifier2", [ngxHttpBlocks ||| ngxConfTake1]),
  ("uwsgi_next_upstream", [ngxHttpBlocks ||| ngxConf1More]),
  ("uwsgi_next_upstream_timeout", [ngxHttpBlocks ||| ngxConfTake1]),
  ("uwsgi_next_upstream_tries", [ngxHttpBlocks ||| ngxConfTake1]),
  ("uwsgi_no_cache", [ngxHttpBlocks ||| ngxConf1More]),
  ("uwsgi_param", [ngxHttpBlocks ||| ngxConfTake23]),
  ("uwsgi_pass", [ngxHttpLocConf ||| ngxHttpLifConf ||| ngxConfTake1]),
  ("uwsgi_pass_header", [ngxHttpBlocks ||| ngxConfTake1]),
  ("uwsgi_pass_request_body", [ngxHttpBlocks ||| ngxConfFlag]),
  ("uwsgi_pass_request_headers", [ngxHttpBlocks ||| ngxConfFlag]),
  ("uwsgi_read_timeout", [ngxHttpBlocks ||| ngxConfTake1]),
  ("uwsgi_request_buffering", [ngxHttpBlocks ||| ngxConfFlag]),
  ("uwsgi_send_timeout", [ngxHttpBlocks ||| ngxConfTake1]),
  ("uwsgi_socket_keepalive", [ngxHttpBlocks ||| ngxConfFlag]),
  ("uwsgi_ssl_certificate", [ngxHttpBlocks ||| ngxConfTake1]),
  ("uwsgi_ssl_certificate_key", [ngxHttpBlocks ||| ngxConfTake1]),
  ("uwsgi_ssl_ciphers", [ngxHttpBlocks ||| ngxConfTake1]),
  ("uwsgi_ssl_crl", [ngxHttpBlocks ||| ngxConfTake1]),
  ("uwsgi_ssl_name", [ngxHttpBlocks ||| ngxConfTake1]),
  ("uwsgi_ssl_password_file", [ngxHttpBlocks ||| ngxConfTake1]),
  ("uwsgi_ssl_protocols", [ngxHttpBlocks ||| ngxConf1More]),
  ("uwsgi_ssl_server_name", [ngxHttpBlocks ||| ngxConfFlag]),
  ("uwsgi_ssl_session_reuse", [ngxHttpBlocks ||| ngxConfFlag]),
  ("uwsgi_ssl_trusted_certificate", [ngxHttpBlocks ||| ngxConfTake1]),
  ("uwsgi_ssl_verify", [ngxHttpBlocks ||| ngxConfFlag]),
  ("uwsgi_ssl_verify_depth", [ngxHttpBlocks ||| ngxConfTake1]),
  ("uwsgi_store", [ngxHttpBlocks ||| ngxConfTake1]),
  ("uwsgi_store_access", [ngxHttpBlocks ||| ngxConfTake123]),
  ("uwsgi_temp_file_write_size", [ngxHttpBlocks ||| ngxConfTake1]),
  ("uwsgi_temp_path", [ngxHttpBlocks ||| ngxConfTake1234]),
  ("valid_referers", [ngxHttpSrvConf ||| ngxHttpLocConf ||| ngxConf1More]),
  ("variables_hash_bucket_size",
    [ngxHttpMainConf ||| ngxConfTake1,
     ngxStreamMainConf ||| ngxConfTake1]),
  ("variables_hash_max_size",
    [ngxHttpMainConf ||| ngxConfTake1,
     ngxStreamMainConf ||| ngxConfTake1]),
  ("worker_aio_requests", [ngxEventConf ||| ngxConfTake1]),
  ("worker_connections", [ngxEventConf ||| ngxConfTake1]),
  ("worker_cpu_affinity", [ngxMainConf ||| ngxDirectConf ||| ngxConf1More]),
  ("worker_priority", [ngxMainConf ||| ngxDirectConf ||| ngxConfTake1]),
  ("worker_processes", [ngxMainConf ||| ngxDirectConf ||| ngxConfTake1]),
  ("worker_rlimit_core", [ngxMainConf ||| ngxDirectConf ||| ngxConfTake1]),
  ("worker_rlimit_nofile", [ngxMainConf ||| ngxDirectConf ||| ngxConfTake1]),
  ("worker_shutdown_timeout", [ngxMainConf ||| ngxDirectConf ||| ngxConfTake1]),
  ("working_directory", [ngxMainConf ||| ngxDirectConf ||| ngxConfTake1]),
  ("xclient", [ngxMailBlocks ||| ngxConfFlag]),
  ("xml_entities", [ngxHttpBlocks ||| ngxConfTake1]),
  ("xslt_last_modified", [ngxHttpBlocks ||| ngxConfFlag]),
  ("xslt_param", [ngxHttpBlocks ||| ngxConfTake2]),
  ("xslt_string_param", [ngxHttpBlocks ||| ngxConfTake2]),
  ("xslt_stylesheet", [ngxHttpLocConf ||| ngxConf1More]),
  ("xslt_types", [ngxHttpBlocks ||| ngxConf1More]),
  ("zone", [ngxHttpUpsConf ||| ngxConfTake12, ngxStreamUpsConf ||| ngxConfTake12])]

/-- Directives of the commercial version. -/
def directivesPlus : Directives := [
  ("api", [ngxHttpLocConf ||| ngxConfNoArgs ||| ngxConfTake1]),
  ("auth_jwt", [ngxHttpBlocks ||| ngxConfTake12]),
  ("auth_jwt_claim_set", [ngxHttpMainConf ||| ngxConf2More]),
  ("auth_jwt_header_set", [ngxHttpMainConf ||| ngxConf2More]),
  ("auth_jwt_key_file", [ngxHttpBlocks ||| ngxConfTake1]),
  ("auth_jwt_key_request", [ngxHttpBlocks ||| ngxConfTake1]),
  ("auth_jwt_leeway", [ngxHttpBlocks ||| ngxConfTake1]),
  ("f4f", [ngxHttpLocConf ||| ngxConfNoArgs]),
  ("f4f_buffer_size", [ngxHttpBlocks ||| ngxConfTake1]),
  ("fastcgi_cache_purge", [ngxHttpBlocks ||| ngxConf1More]),
  ("health_check", [ngxHttpLocConf ||| ngxConfAny, ngxStreamSrvConf ||| ngxConfAny]),
  ("health_check_timeout", [ngxStreamBlocks ||| ngxConfTake1]),
  ("hls", [ngxHttpLocConf ||| ngxConfNoArgs]),
  ("hls_buffers", [ngxHttpBlocks ||| ngxConfTake2]),
  ("hls_forward_args", [ngxHttpBlocks ||| ngxConfFlag]),
  ("hls_fragment", [ngxHttpBlocks ||| ngxConfTake1]),
  ("hls_mp4_buffer_size", [ngxHttpBlocks ||| ngxConfTake1]),
  ("hls_mp4_max_buffer_size", [ngxHttpBlocks ||| ngxConfTake1]),
  ("js_access", [ngxStreamBlocks ||| ngxConfTake1]),
  ("js_content", [ngxHttpLocConf ||| ngxHttpLmtConf ||| ngxConfTake1]),
  ("js_filter", [ngxStreamBlocks ||| ngxConfTake1]),
  ("js_include", [ngxHttpMainConf ||| ngxConfTake1, ngxStreamMainConf ||| ngxConfTake1]),
  ("js_path", [ngxHttpMainConf ||| ngxConfTake1]),
  ("js_preread", [ngxStreamBlocks ||| ngxConfTake1]),
  ("js_set", [ngxHttpMainConf ||| ngxConfTake2, ngxStreamMainConf ||| ngxConfTake2]),
  ("keyval", [ngxHttpMainConf ||| ngxConfTake3, ngxStreamMainConf ||| ngxConfTake3]),
  ("keyval_zone", [ngxHttpMainConf ||| ngxConf1More, ngxStreamMainConf ||| ngxConf1More]),
  ("least_time", [ngxHttpUpsConf ||| ngxConfTake12, ngxStreamUpsConf ||| ngxConfTake12]),
  ("limit_zone", [ngxHttpMainConf ||| ngxConfTake3]),
  ("match",
    [ngxHttpMainConf ||| ngxConfBlock ||| ngxConfTake1,
     ngxStreamMainConf ||| ngxConfBlock ||| ngxConfTake1]),
  ("memcached_force_ranges", [ngxHttpBlocks ||| ngxConfFlag]),
  ("mp4_limit_rate", [ngxHttpBlocks ||| ngxConfTake1]),
  ("mp4_limit_rate_after", [ngxHttpBlocks ||| ngxConfTake1]),
  ("ntlm", [ngxHttpUpsConf ||| ngxConfNoArgs]),
  ("proxy_cache_purge", [ngxHttpBlocks ||| ngxConf1More]),
  ("queue", [ngxHttpUpsConf ||| ngxConfTake12]),
  ("scgi_cache_purge", [ngxHttpBlocks ||| ngxConf1More]),
  ("session_log", [ngxHttpBlocks ||| ngxConfTake1]),
  ("session_log_format", [ngxHttpMainConf ||| ngxConf2More]),
  ("session_log_zone",
    [ngxHttpMainConf ||| ngxConfTake23 ||| ngxConfTake4 ||| ngxConfTake5 ||| ngxConfTake6]),
  ("state", [ngxHttpUpsConf ||| ngxConfTake1, ngxStreamUpsConf ||| ngxConfTake1]),
  ("status", [ngxHttpLocConf ||| ngxConfNoArgs]),
  ("status_format", [ngxHttpBlocks ||| ngxConfTake12]),
  ("status_zone",
    [ngxHttpSrvConf ||| ngxConfTake1,
     ngxStreamSrvConf ||| ngxConfTake1,
     ngxHttpLocConf ||| ngxConfTake1,
     ngxHttpLifConf ||| ngxConfTake1]),
  ("sticky", [ngxHttpUpsConf ||| ngxConf1More]),
  ("sticky_cookie_insert", [ngxHttpUpsConf ||| ngxConfTake1234]),
  ("upstream_conf", [ngxHttpLocConf ||| ngxConfNoArgs]),
  ("uwsgi_cache_purge", [ngxHttpBlocks ||| ngxConf1More]),
  ("zone_sync", [ngxStreamSrvConf ||| ngxConfNoArgs]),
  ("zone_sync_buffers", [ngxStreamBlocks ||| ngxConfTake2]),
  ("zone_sync_connect_retry_interval", [ngxStreamBlocks ||| ngxConfTake1]),
  ("zone_sync_connect_timeout", [ngxStreamBlocks ||| ngxConfTake1]),
  ("zone_sync_interval", [ngxStreamBlocks ||| ngxConfTake1]),
  ("zone_sync_recv_buffer_size", [ngxStreamBlocks ||| ngxConfTake1]),
  ("zone_sync_server", [ngxStreamSrvConf ||| ngxConfTake12]),
  ("zone_sync_ssl", [ngxStreamBlocks ||| ngxConfFlag]),
  ("zone_sync_ssl_certificate", [ngxStreamBlocks ||| ngxConfTake1]),
  ("zone_sync_ssl_certificate_key", [ngxStreamBlocks ||| ngxConfTake1]),
  ("zone_sync_ssl_ciphers", [ngxStreamBlocks ||| ngxConfTake1]),
  ("zone_sync_ssl_crl", [ngxStreamBlocks ||| ngxConfTake1]),
  ("zone_sync_ssl_name", [ngxStreamBlocks ||| ngxConfTake1]),
  ("zone_sync_ssl_password_file", [ngxStreamBlocks ||| ngxConfTake1]),
  ("zone_sync_ssl_protocols", [ngxStreamBlocks ||| ngxConf1More]),
  ("zone_sync_ssl_server_name", [ngxStreamBlocks ||| ngxConfFlag]),
  ("zone_sync_ssl_trusted_certificate", [ngxStreamBlocks ||| ngxConfTake1]),
  ("zone_sync_ssl_verify", [ngxStreamBlocks ||| ngxConfFlag]),
  ("zone_sync_ssl_verify_depth", [ngxStreamBlocks ||| ngxConfTake1]),
  ("zone_sync_timeout", [ngxStreamBlocks ||| ngxConfTake1])]

def directives : Directives :=
  directivesAE ++ directivesFG ++ directivesHL ++ directivesMO ++ directivesP ++ directivesR ++
    directivesS ++ directivesTZ ++ directivesPlus

end DirectiveTable
